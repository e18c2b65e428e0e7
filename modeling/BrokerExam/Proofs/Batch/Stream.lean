/-
BrokerExam/Proofs/Batch/Stream.lean

Batches one after the other.  A log file and a stream inside a message hold the
same bytes and are read by the same loop; the stream only adds its size, which
confines the loop to the bytes it counts.

Main results: `batches_roundTrip`, for batches of any contents;
`decodeLog_eq_ok_iff`, which says what it is for bytes to be a log; and
`ok_of_batchesIn`, that a stream which was read holds such bytes.
-/
import BrokerExam.Proofs.Batch.Basic
import BrokerExam.Batch.Stream

namespace BrokerExam

variable {bs : List RecordBatch}

/-! ### Writing -/

/-- The bytes of a log are those of its batches, each below its index. -/
theorem bytes_items_write (name : String) (bs : List RecordBatch) :
    (Encoding.items name ((bs.map RecordBatch.codec.write).map Prod.snd)).bytes = encodeLog bs := by
  rw [Encoding.bytes_items, List.map_map, List.flatMap_map]
  rfl

theorem map_write_fst (bs : List RecordBatch) :
    (bs.map RecordBatch.codec.write).map Prod.fst = bs.map RecordBatch.normalized :=
  List.map_map ..

theorem encodeLog_normalized (bs : List RecordBatch) :
    encodeLog (bs.map RecordBatch.normalized) = encodeLog bs := by
  rw [encodeLog, List.flatMap_map]
  simp only [RecordBatch.bytes_normalized]
  rfl

/-! ### Reading what was written -/

/-- Batches that fit their lengths are read to the end of their bytes. -/
theorem readsBefore_all_batches (name : String) (fits : ∀ b ∈ bs, b.Fits) :
    ReadsBefore [] (FieldRead.all name RecordBatch.read) (encodeLog bs)
      (Encoding.items name ((bs.map RecordBatch.codec.write).map Prod.snd)).trace
      (bs.map RecordBatch.normalized) := by
  have items : ∀ p ∈ bs.map RecordBatch.codec.write, ReadsBack RecordBatch.read p.2 p.1 := by
    intro p hp
    obtain ⟨b, hb, rfl⟩ := List.mem_map.1 hp
    exact RecordBatch.readsBack (fits b hb)
  have whole : ReadsBefore [] (FieldRead.all name RecordBatch.read) _ _ _ :=
    readsBefore_all items (Codec.length_items_pos bs)
  rwa [bytes_items_write, map_write_fst] at whole

/-- Each batch takes some byte. -/
theorem length_pos_of_readBy {p : Piece RecordBatch} (h : p.ReadBy RecordBatch.read) :
    0 < p.bytes.length := by
  have moved := RecordBatch.read_eats _ _ _ (h.run_start ())
  rw [ReadState.past_offset, (h []).width] at moved
  exact Nat.lt_of_add_lt_add_left moved

/-- Bytes that were read to the end as batches are cut into pieces, one for each. -/
theorem pieces_of_all {name : String} {s s' : ReadState Unit}
    (run : FieldRead.all name RecordBatch.read s = .ok bs s') :
    ∃ ps : List (Piece RecordBatch), s.cursor.ahead = ps.flatMap Piece.bytes ∧
      bs = ps.map Piece.value ∧ ∀ p ∈ ps, p.ReadBy RecordBatch.read := by
  obtain ⟨ps, cut, values, each⟩ :=
    FieldRead.ok_of_all RecordBatch.read_isLocal RecordBatch.read_eats run
  exact ⟨ps, cut, values, fun p hp => (each p hp).1⟩

/-- **What a log is**: bytes are a log exactly if they are cut into pieces, of which each reads as a
batch. -/
theorem decodeLog_eq_ok_iff {log : Bytes} :
    decodeLog log = .ok bs ↔ ∃ ps : List (Piece RecordBatch), log = ps.flatMap Piece.bytes ∧
      bs = ps.map Piece.value ∧ ∀ p ∈ ps, p.ReadBy RecordBatch.read := by
  constructor
  · intro decoded
    rw [decodeLog, readLog] at decoded
    split at decoded
    · next bs' s' run =>
      obtain rfl := Except.ok.inj decoded
      obtain ⟨s₁, body, -⟩ := FieldRead.ok_of_scope run
      exact pieces_of_all body
    · cases decoded
  · rintro ⟨ps, rfl, rfl, each⟩
    have whole : ReadsBefore [] (FieldRead.all "RecordBatches" RecordBatch.read) _ _ _ :=
      readsBefore_all_pieces each fun p hp => length_pos_of_readBy (each p hp)
    rw [decodeLog, readLog, (whole.scope "RecordBatches").run _ (List.append_nil _).symm]

/-- The bytes of a log are read to the end wherever batches are, whatever they are called there. -/
theorem readsBefore_of_decodeLog {log : Bytes} (h : decodeLog log = .ok bs) (name : String) :
    ∃ t, ReadsBefore [] (FieldRead.all name RecordBatch.read) log t bs := by
  obtain ⟨ps, rfl, rfl, each⟩ := decodeLog_eq_ok_iff.1 h
  exact ⟨_, readsBefore_all_pieces each fun p hp => length_pos_of_readBy (each p hp)⟩

theorem decodeLog_encodeLog (fits : ∀ b ∈ bs, b.Fits) :
    decodeLog (encodeLog bs) = .ok (bs.map RecordBatch.normalized) := by
  have whole := (readsBefore_all_batches "RecordBatches" fits).scope "RecordBatches"
  rw [decodeLog, readLog, whole.run _ (List.append_nil _).symm]

/-! ### Streams that declare their size -/

section Streams

variable {rest used : Bytes} {t : Trace} {name : String}

/-- The bytes of a log are read from a stream that declares as many. -/
theorem readsBefore_batchesIn
    (h : ReadsBefore [] (FieldRead.all name RecordBatch.read) used t bs) (anchor : Anchor) :
    ReadsBefore rest (FieldRead.batchesIn name used.length anchor) used t bs where
  width := h.width
  run := by
    intro s ahead
    have bounded : ReadsBefore rest
        (FieldRead.bounded used.length (FieldRead.all name RecordBatch.read)) used t bs := h.bounded
    have enough : ¬ s.cursor.ahead.length < used.length := by
      rw [ahead, List.length_append]
      omega
    rw [FieldRead.batchesIn, bind_of_ok (FieldRead.remaining_ok s), if_neg enough,
      bind_of_ok (FieldRead.offset_ok s), bind_of_ok (bounded.run s ahead),
      bind_of_ok (FieldRead.offset_ok _)]
    simp only [ReadState.past_offset, Nat.add_sub_cancel_left, h.width, ne_eq, not_true, if_false]
    rfl

/-- A stream that was read fills the bytes that it declares, and they are a log. -/
theorem ok_of_batchesIn {size : Nat} {anchor : Anchor} {s s' : ReadState Unit}
    (run : FieldRead.batchesIn name size anchor s = .ok bs s') :
    ∃ used left, s.cursor.ahead = used ++ left ∧ used.length = size ∧
      decodeLog used = .ok bs := by
  rw [FieldRead.batchesIn] at run
  obtain ⟨_, _, there, run⟩ := ok_of_bind run
  obtain ⟨rfl, rfl⟩ := EStateM.Result.ok.inj there
  split at run
  · cases run
  · next enough =>
    obtain ⟨_, _, start, run⟩ := ok_of_bind run
    obtain ⟨rfl, rfl⟩ := EStateM.Result.ok.inj start
    obtain ⟨bs', s₁, body, run⟩ := ok_of_bind run
    -- the loop saw nothing but the bytes that are counted
    obtain ⟨_, inside, -⟩ := FieldRead.ok_of_bounded body
    have sight : (s.cursor.confine (s.cursor.offset + size)).ahead = s.cursor.ahead.take size := by
      rw [Cursor.confine, Nat.add_sub_cancel_left]
    have log : decodeLog (s.cursor.ahead.take size) = .ok bs' := by
      rw [← sight]
      exact decodeLog_eq_ok_iff.2 (pieces_of_all inside)
    obtain ⟨_, _, stop, run⟩ := ok_of_bind run
    dsimp only at run
    split at run
    · cases run
    · obtain ⟨rfl, -⟩ := EStateM.Result.ok.inj run
      exact ⟨s.cursor.ahead.take size, s.cursor.ahead.drop size,
        (List.take_append_drop size _).symm, List.length_take_of_le (Nat.not_lt.1 enough), log⟩

theorem localFamily_batchesIn (name : String) (size : Nat) :
    FieldRead.LocalFamily fun anchor => FieldRead.batchesIn name size anchor := by
  intro anchor s bs s' run
  obtain ⟨used, left, ahead, rfl, log⟩ := ok_of_batchesIn run
  obtain ⟨t, whole⟩ := readsBefore_of_decodeLog log name
  exact ⟨used, left, t, ahead, fun anchor' _ => readsBefore_batchesIn whole anchor'⟩

theorem batchStream_isLocal (name : String) : FieldRead.Local (FieldRead.batchStream name) := by
  refine FieldRead.Local.scope name (FieldRead.Local.anchored_bind "Size"
    Kind.Plain.compactRecordSize.isLocal fun raw => ?_)
  show FieldRead.LocalFamily fun anchor : Anchor => if raw ≤ 1 then _ else _
  split
  · exact (FieldRead.Local.pure []).family
  · exact localFamily_batchesIn name _

end Streams

/-- The size in front of a stream of batches counts their bytes. -/
theorem streamSize_counts {n : Nat} (h : n + 1 < 0x10000000000000000) :
    (UInt64.ofNat (n + 1) ≤ 1 ↔ n = 0) ∧ (UInt64.ofNat (n + 1)).toNat - 1 = n := by
  have counts : (UInt64.ofNat (n + 1)).toNat = n + 1 := by
    rw [UInt64.toNat_ofNat']
    omega
  rw [UInt64.le_iff_toNat_le, counts, show (1 : UInt64).toNat = 1 from rfl]
  omega

/-- What is written as a stream of batches. -/
theorem batchStream_write_snd (name : String) (bs : List RecordBatch) :
    ((Codec.batchStream name).write bs).2 = Encoding.scope name
      (Encoding.leaf "Size" (.compactRecordSize (UInt64.ofNat ((encodeLog bs).length + 1))) ++
        Encoding.items name ((bs.map RecordBatch.codec.write).map Prod.snd)) := by
  simp only [Codec.batchStream, Codec.writeItems_eq]

/-- A stream takes few bytes beside those of its log. -/
theorem length_batchStream_le (name : String) (bs : List RecordBatch) :
    ((Codec.batchStream name).write bs).2.bytes.length ≤ (encodeLog bs).length + 10 := by
  have size : (Value.compactRecordSize (UInt64.ofNat ((encodeLog bs).length + 1))).bytes.length ≤
      10 := Varint.length_encode_le _
  rw [batchStream_write_snd, Encoding.bytes_scope, Encoding.bytes_append, Encoding.bytes_leaf,
    bytes_items_write, List.length_append]
  omega

/-- A batch takes no more bytes than the stream. -/
theorem length_batch_le {b : RecordBatch} (hb : b ∈ bs) (name : String) :
    b.bytes.length ≤ ((Codec.batchStream name).write bs).2.bytes.length := by
  have item : b.bytes.length ≤ _ :=
    Codec.length_item_le (List.mem_map_of_mem (f := RecordBatch.codec.write) hb) name
  rw [batchStream_write_snd, Encoding.bytes_scope, Encoding.bytes_append, List.length_append]
  exact Nat.le_trans item (Nat.le_add_left _ _)

/-- **Batches read back from a stream**, whatever follows it. -/
theorem readsBack_batchStream (name : String) (fits : ∀ b ∈ bs, b.Fits)
    (size : (encodeLog bs).length + 1 < 0x10000000000000000) :
    ReadsBack (FieldRead.batchStream name) ((Codec.batchStream name).write bs).2
      (bs.map RecordBatch.normalized) := by
  obtain ⟨null, counts⟩ := streamSize_counts size
  rw [batchStream_write_snd]
  refine ReadsBack.scope name (ReadsBack.anchored_bind "Size" (RawRead.reads_unsignedVarint _) ?_)
  intro anchor rest
  show ReadsBefore rest (if UInt64.ofNat _ ≤ 1 then _ else _) _ _ _
  rw [bytes_items_write, counts]
  by_cases empty : (encodeLog bs).length = 0
  · -- every batch takes some byte, so that there is none
    have few : bs.length
        ≤ (Encoding.items name ((bs.map RecordBatch.codec.write).map Prod.snd)).bytes.length :=
      Codec.length_le_items bs name
    rw [bytes_items_write, empty] at few
    obtain rfl : bs = [] := List.eq_nil_of_length_eq_zero (Nat.le_zero.1 few)
    rw [if_pos (null.2 empty)]
    exact ReadsBefore.pure []
  · rw [if_neg fun small => empty (null.1 small)]
    exact readsBefore_batchesIn (readsBefore_all_batches name fits) anchor

/-- **A log is read from a stream** however its size is spelled. -/
theorem reads_batchStream {log : Bytes} (decoded : decodeLog log = .ok bs) (name : String)
    {declared : UInt64} (counts : declared.toNat - 1 = log.length) {size : Bytes}
    (hs : Kind.compactRecordSize.read.Reads size declared) :
    ∃ t, Reads (FieldRead.batchStream name) (size ++ log) t bs := by
  obtain ⟨t, whole⟩ := readsBefore_of_decodeLog decoded name
  have behind (anchor : Anchor) (rest : Bytes) : ReadsBefore rest
      (if declared ≤ 1 then pure [] else FieldRead.batchesIn name (declared.toNat - 1) anchor)
      log (if declared ≤ 1 then [] else t) bs := by
    split
    · next none =>
      rw [UInt64.le_iff_toNat_le, show (1 : UInt64).toNat = 1 from rfl] at none
      obtain rfl : log = [] := List.eq_nil_of_length_eq_zero (by omega)
      obtain rfl : [] = bs := Except.ok.inj decoded
      exact ReadsBefore.pure []
    · rw [counts]
      exact readsBefore_batchesIn whole anchor
  exact ⟨_, fun rest => (ReadsBefore.anchored_bind "Size" hs fun anchor =>
    behind anchor rest).scope name⟩

theorem batchStream_lawfulOn (name : String) :
    (Codec.batchStream name).LawfulOn fun bs => ∀ b ∈ bs, b.Fits where
  reads bs fits small := by
    have size : (encodeLog bs).length + 1 < 0x10000000000000000 := by
      rw [batchStream_write_snd, Encoding.bytes_scope, Encoding.bytes_append, bytes_items_write,
        List.length_append] at small
      omega
    have whole := readsBack_batchStream name fits size
    rw [← map_write_fst] at whole
    simp only [Codec.batchStream, Codec.writeItems_eq] at whole ⊢
    exact whole
  short bs fits := by
    rw [batchStream_write_snd]
    exact Encoding.Short.scope name ((Encoding.Short.leaf "Size" rfl).append
      (Encoding.Short.items (Codec.short_items RecordBatch.codec_lawfulOn fits) name))
  isLocal := batchStream_isLocal name

@[simp] theorem batchStream_write_fst (name : String) (bs : List RecordBatch) :
    ((Codec.batchStream name).write bs).1 = bs.map RecordBatch.normalized := by
  simp only [Codec.batchStream, Codec.writeItems_eq, map_write_fst]

/-! ### Round trip -/

/-- **Batches read back in normal form**, whatever they held for the values that are computed on
writing: as a log, and as a stream in front of any further bytes, of which none is consumed.  The
normal form is its own, and writes the same bytes. -/
theorem batches_roundTrip (bs : List RecordBatch) (fits : ∀ b ∈ bs, b.Fits) :
    decodeLog (encodeLog bs) = .ok (bs.map RecordBatch.normalized) ∧
    (∀ b : RecordBatch, b.normalized.normalized = b.normalized ∧ b.normalized.bytes = b.bytes) ∧
    ∀ (name : String) (s : ReadState Unit) (rest : Bytes),
      (encodeLog bs).length + 1 < 0x10000000000000000 →
      s.cursor.ahead = Encoding.bytes ((Codec.batchStream name).write bs).2 ++ rest →
      ∃ s', (Codec.batchStream name).read s = .ok (bs.map RecordBatch.normalized) s' ∧
        s'.cursor = ⟨s.cursor.offset
          + (Encoding.bytes ((Codec.batchStream name).write bs).2).length, rest⟩ := by
  refine ⟨decodeLog_encodeLog fits, fun b => ?_, fun name s rest size ahead => ?_⟩
  · exact ⟨b.normalized_normalized, b.bytes_normalized⟩
  · have whole := readsBack_batchStream name fits size rest
    refine ⟨_, whole.run s ahead, ?_⟩
    rw [← whole.width]
    rfl

/-- A batch with stale values, a header and a record without a value. -/
def staleBatch : RecordBatch where
  baseOffset := 7
  batchLength := -5
  magic := 9
  crc := 1
  lastOffsetDelta := 40
  records := [
    { timestampDelta := -3, offsetDelta := 12, key := some [], value := some [1, 2]
      headers := [⟨"é", some []⟩, ⟨"", none⟩] },
    { value := none }]

/-- The conditions of `batches_roundTrip` hold of batches that are not in normal form. -/
theorem batches_roundTrip_stale :
    (∀ b ∈ [staleBatch, {}], b.Fits) ∧ staleBatch ≠ staleBatch.normalized ∧
    decodeLog (encodeLog [staleBatch, {}]) =
      .ok [staleBatch.normalized, ({} : RecordBatch).normalized] ∧
    ∃ s', (Codec.batchStream "RecordBatches").read (ReadState.start (Encoding.bytes
        ((Codec.batchStream "RecordBatches").write [staleBatch, {}]).2 ++ [255]) ()) =
          .ok [staleBatch.normalized, ({} : RecordBatch).normalized] s' ∧
      s'.cursor.ahead = [255] := by
  have fits : ∀ b ∈ [staleBatch, {}], b.Fits := by decide +kernel
  obtain ⟨log, -, stream⟩ := batches_roundTrip [staleBatch, {}] fits
  have length : (encodeLog [staleBatch, {}]).length = 144 := by decide +kernel
  have small : (encodeLog [staleBatch, {}]).length + 1 < 0x10000000000000000 := by
    rw [length]
    decide
  obtain ⟨s', run, cursor⟩ :=
    stream "RecordBatches" (ReadState.start (_ ++ [255]) ()) [255] small rfl
  refine ⟨fits, by decide +kernel, log, s', run, ?_⟩
  rw [cursor]

end BrokerExam
