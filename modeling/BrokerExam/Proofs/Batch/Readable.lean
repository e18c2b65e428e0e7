/-
BrokerExam/Proofs/Batch/Readable.lean

Batches that cannot be read again.  A batch that was read has no more records than
its count of 32 bits can tell (`RecordBatch.read_yields`).  Written again it
can outgrow its length of 32 bits, since the text of a header and the offset deltas
may take more bytes than before; then nothing is read of it.

Main results: `RecordBatch.codec_readsOnly` and `Codec.batchStream_readsOnly`.
-/
import BrokerExam.Proofs.Batch.Framing
import BrokerExam.Proofs.Wire.Readable

namespace BrokerExam

namespace RecordBatch

/-- The records can be counted in 32 bits. -/
def FewRecords (b : RecordBatch) : Prop := b.records.length < 0x80000000

theorem fewRecords_of_reads {used : Bytes} {t : Trace} {b : RecordBatch} (h : Reads read used t b) :
    b.FewRecords := by
  obtain ⟨-, -, p, -, -, -, -, parts⟩ := parts_of_reads h
  obtain ⟨_, c, covered, same⟩ := parts.covered
  have records : b.records = c.records := (congrArg RecordBatch.records same :)
  obtain ⟨-, -, n, -, -, -, -, counts, -⟩ := framed_of_reads_covered covered
  rw [FewRecords, records]
  rcases counts with counts | ⟨-, none⟩
  · have := n.toInt_lt
    omega
  · rw [none]
    decide

theorem read_yields : read.Yields FewRecords := by
  intro s b s' run
  obtain ⟨used, left, t, -, reads⟩ := read_isLocal s b s' run
  exact fewRecords_of_reads reads

/-- **What is written for a batch can be read only if it fits its length.** -/
theorem codec_readsOnly : codec.ReadsOnly FewRecords Fits := by
  refine ⟨fun b few => short_encoding few, read_isLocal,
    fun {b b' used left rest t} few small same reads => ?_⟩
  obtain ⟨o, l, p, rfl, offset, length, -, parts⟩ := parts_of_reads reads
  obtain ⟨_, c, inner, -⟩ := parts.covered
  change b.bytes.length < _ at small
  change _ = b.encoding.bytes ++ rest at same
  have inside : (covered.write b.numbered).2.bytes.length < 0x8000000000000000 := by
    rw [length_bytes] at small
    show b.coveredBytes.length < _
    omega
  have few : b.numbered.records.length < 0x80000000 := by
    rw [length_records_numbered]
    exact few
  have written := covered_lawfulOn.reads b.numbered few inside
  simp only [encoding_eq, countedEncoding, Parts.bytes, Encoding.bytes_append, Encoding.bytes_leaf,
    List.append_assoc] at same
  -- part by part, what was read is what was written
  obtain ⟨rfl, same, -⟩ := offset.unique (RawRead.reads_int64 _) same
  obtain ⟨rfl, same, -⟩ := length.unique (RawRead.reads_int32 _) same
  obtain ⟨epoch, same, -⟩ := parts.leaderEpoch.unique (RawRead.reads_int32 _) same
  obtain ⟨magic, same, -⟩ := parts.magic.unique (RawRead.reads_int8 _) same
  obtain ⟨crc, same, -⟩ := parts.crc.unique (RawRead.reads_uint32 _) same
  obtain ⟨part, -, -⟩ := inner.unique written same
  have whole : p.bytes = b.countedEncoding.bytes := by
    simp only [countedEncoding, Parts.bytes, Encoding.bytes_append, Encoding.bytes_leaf, epoch,
      magic, crc, part]
    rfl
  -- the length that was read counts them, in 32 bits
  have counts := parts.counts
  rw [whole, length_countedEncoding] at counts
  have bound := b'.batchLength.toInt_lt
  show b.coveredBytes.length + bytesBeforeCovered < 0x80000000
  omega

end RecordBatch

/-! ### Streams -/

theorem fewRecords_of_decodeLog {log : Bytes} {bs : List RecordBatch}
    (decoded : decodeLog log = .ok bs) : ∀ b ∈ bs, b.FewRecords := by
  obtain ⟨ps, -, rfl, each⟩ := decodeLog_eq_ok_iff.1 decoded
  intro b mem
  obtain ⟨p, there, rfl⟩ := List.mem_map.1 mem
  exact RecordBatch.fewRecords_of_reads (each p there)

namespace Codec

theorem batchStream_yields (name : String) :
    FieldRead.Yields (FieldRead.batchStream name) fun bs => ∀ b ∈ bs, b.FewRecords := by
  refine .scope (.bind (.any _) fun declared _ => ?_) name
  obtain ⟨raw, anchor⟩ := declared
  show FieldRead.Yields (if raw ≤ 1 then _ else _) _
  split
  · exact .pure fun b mem => absurd mem List.not_mem_nil
  · intro s bs s' run
    obtain ⟨log, left, -, -, decoded⟩ := ok_of_batchesIn run
    exact fewRecords_of_decodeLog decoded

/-- A stream that was read is a size and as many bytes, which are a log. -/
theorem reads_of_batchStream {name : String} {used : Bytes} {t : Trace} {bs : List RecordBatch}
    (reads : Reads (FieldRead.batchStream name) used t bs) :
    ∃ (declared : UInt64) (size log : Bytes), used = size ++ log ∧
      Kind.compactRecordSize.read.Reads size declared ∧ declared.toNat - 1 = log.length ∧
      decodeLog log = .ok bs := by
  let stream (declared : UInt64 × Anchor) : FieldRead (List RecordBatch) :=
    if declared.1 ≤ 1 then pure [] else FieldRead.batchesIn name (declared.1.toNat - 1) declared.2
  have behind (raw : UInt64) : FieldRead.LocalFamily fun anchor => stream (raw, anchor) := by
    show FieldRead.LocalFamily fun anchor : Anchor => if raw ≤ 1 then _ else _
    split
    · exact (FieldRead.Local.pure []).family
    · exact localFamily_batchesIn name (raw.toNat - 1)
  have body := FieldRead.Local.anchored_bind "Size" Kind.Plain.compactRecordSize.isLocal behind
  obtain ⟨_, inside⟩ := body.reads_of_scope reads
  obtain ⟨declared, size, log, _, rfl, value, rest⟩ :=
    FieldRead.reads_of_anchored_bind Kind.Plain.compactRecordSize.isLocal behind inside
  refine ⟨declared, size, log, rfl, value, ?_⟩
  let anchor : Anchor := ⟨FieldPath.root, 0, 0⟩
  have rest : Reads (if declared ≤ 1 then pure [] else _) log _ bs := rest anchor
  split at rest
  · next none =>
    obtain ⟨rfl, rfl⟩ := FieldRead.reads_of_pure rest
    rw [UInt64.le_iff_toNat_le, show (1 : UInt64).toNat = 1 from rfl] at none
    exact ⟨by rw [List.length_nil]; omega, rfl⟩
  · obtain ⟨used, left, ahead, count, decoded⟩ := ok_of_batchesIn (rest.run_start ())
    -- a log of that size would be read as well, so that it is all there is
    obtain ⟨t', whole⟩ := readsBefore_of_decodeLog decoded name
    have again : Reads (FieldRead.batchesIn name (declared.toNat - 1) anchor) used t' bs := by
      rw [← count]
      exact fun _ => readsBefore_batchesIn whole anchor
    obtain ⟨rfl, -, -⟩ := rest.unique again ((List.append_nil log).trans ahead)
    exact ⟨count.symm, decoded⟩

/-- **What is written as a stream can be read only if every batch fits its length.** -/
theorem batchStream_readsOnly (name : String) :
    (Codec.batchStream name).ReadsOnly (fun bs => ∀ b ∈ bs, b.FewRecords) fun bs =>
      ∀ b ∈ bs, b.Fits := by
  refine ⟨fun bs few => ?_, batchStream_isLocal name,
    fun {bs bs' used left rest t} few small same reads => ?_⟩
  · rw [batchStream_write_snd]
    refine Encoding.Short.scope name ((Encoding.Short.leaf "Size" rfl).append ?_)
    refine Encoding.Short.items (fun e he => ?_) name
    obtain ⟨p, hp, rfl⟩ := List.mem_map.1 he
    obtain ⟨b, hb, rfl⟩ := List.mem_map.1 hp
    exact RecordBatch.short_encoding (few b hb)
  obtain ⟨declared, size, log, rfl, number, count, decoded⟩ := reads_of_batchStream reads
  obtain ⟨ps, rfl, -, each⟩ := decodeLog_eq_ok_iff.1 decoded
  have smaller : ∀ b ∈ bs, (RecordBatch.codec.write b).2.bytes.length < 0x8000000000000000 :=
    fun b mem => Nat.lt_of_le_of_lt (length_batch_le mem name) small
  have inside : (encodeLog bs).length + 1 < 0x10000000000000000 := by
    rw [batchStream_write_snd, Encoding.bytes_scope, Encoding.bytes_append, bytes_items_write,
      List.length_append] at small
    omega
  rw [batchStream_write_snd, Encoding.bytes_scope, Encoding.bytes_append, Encoding.bytes_leaf,
    bytes_items_write, List.append_assoc, List.append_assoc] at same
  obtain ⟨-, same, rfl⟩ := number.unique (RawRead.reads_unsignedVarint _) same
  rw [(streamSize_counts inside).2] at count
  obtain ⟨whole, -⟩ := List.append_inj same count.symm
  have all : ps.flatMap Piece.bytes ++ [] =
      (bs.flatMap fun b => (RecordBatch.codec.write b).2.bytes) ++ [] := by
    rw [List.append_nil, List.append_nil]
    exact whole
  exact ReadsOnly.of_pieces RecordBatch.codec_readsOnly RecordBatch.codec_lawfulOn (.inr rfl) few
    smaller all each

end Codec
end BrokerExam
