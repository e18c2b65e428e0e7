/-
BrokerExam/Proofs/Batch/Disguise.lean

Logs that differ and hold the same.  A batch carries the offset delta of its last
record, but is always written with the one that the number of records gives; so a
log can be changed there, and in the checksum, and still be read as batches that
would be written as the same bytes.

Main results: `RecordBatch.exists_disguise`, for every batch, and
`exists_log_disguise`, for every log but the empty one.
-/
import BrokerExam.Proofs.Batch.Stream

namespace BrokerExam

/-! ### The part that the checksum covers -/

namespace RecordBatch

/-- What the checksum covers behind the offset delta of the last record. -/
def behindDelta : Codec RecordBatch RecordBatch := do
  let firstTimestamp ← (Codec.int64 "FirstTimestamp").on (·.firstTimestamp)
  let maxTimestamp ← (Codec.int64 "MaxTimestamp").on (·.maxTimestamp)
  let producerId ← (Codec.int64 "ProducerId").on (·.producerId)
  let producerEpoch ← (Codec.int16 "ProducerEpoch").on (·.producerEpoch)
  let baseSequence ← (Codec.int32 "BaseSequence").on (·.baseSequence)
  let records ← (Codec.array "Records" Record.codec).on (·.records)
  return { firstTimestamp, maxTimestamp, producerId, producerEpoch, baseSequence, records }

theorem behindDelta_lawfulOn : behindDelta.LawfulOn fun b => b.records.length < 0x80000000 :=
  .bind .of fun _ => .bind .of fun _ => .bind .of fun _ => .bind .of fun _ => .bind .of fun _ =>
  .bind (.on (.array "Records" .of) fun _ few => ⟨few, fun _ _ => trivial⟩) fun _ => .of

theorem covered_read_eq : covered.read = (do
    let attributes ← FieldRead.field "Attributes" Kind.int16
    let lastOffsetDelta ← FieldRead.field "LastOffsetDelta" Kind.int32
    (fun c => { c with attributes, lastOffsetDelta }) <$> behindDelta.read) := by
  have bind {α β γ : Type} (c : Codec α β) (f : β → Codec α γ) :
      (c >>= f).read = c.read >>= fun b => (f b).read := rfl
  have pure {α β : Type} (b : β) : (Pure.pure b : Codec α β).read = Pure.pure b := rfl
  simp only [covered, behindDelta, bind, pure, map_bind, map_pure]
  rfl

section Covered

variable {u v w : Bytes} {t : Trace} {attributes : Int16} {delta : Int32} {c : RecordBatch}

theorem reads_covered (hu : Kind.int16.read.Reads u attributes)
    (hv : Kind.int32.read.Reads v delta) (hw : Reads behindDelta.read w t c) :
    ∃ t', Reads covered.read (u ++ (v ++ w)) t'
      { c with attributes, lastOffsetDelta := delta } := by
  rw [covered_read_eq]
  have behind (rest : Bytes) := (ReadsBefore.field (ν := Unit) "LastOffsetDelta" hv).bind
    (f := fun lastOffsetDelta =>
      (fun c => { c with attributes, lastOffsetDelta }) <$> behindDelta.read)
    ((hw rest).map fun c => { c with attributes, lastOffsetDelta := delta })
  exact ⟨_, fun rest => (ReadsBefore.field "Attributes" hu).bind (behind rest)⟩

/-- What the checksum covers holds the attributes, the offset delta of the last record, and the
rest. -/
theorem covered_of_reads {used : Bytes} (h : Reads covered.read used t c) :
    ∃ u v w t' b, used = u ++ (v ++ w) ∧ Kind.int16.read.Reads u c.attributes ∧
      Kind.int32.read.Reads v c.lastOffsetDelta ∧ Reads behindDelta.read w t' b ∧
      c = { b with attributes := c.attributes, lastOffsetDelta := c.lastOffsetDelta } := by
  have run := h.run_start ()
  rw [covered_read_eq] at run
  obtain ⟨attributes, _, first, run⟩ := ok_of_bind run
  obtain ⟨u, left₁, ahead₁, hu, rfl⟩ := FieldRead.ok_of_field Kind.Plain.int16.isLocal first
  obtain ⟨delta, _, second, run⟩ := ok_of_bind run
  obtain ⟨v, left₂, ahead₂, hv, rfl⟩ := FieldRead.ok_of_field Kind.Plain.int32.isLocal second
  obtain ⟨b, third, rfl⟩ := ok_of_map run
  obtain ⟨w, left₃, t', ahead₃, hw⟩ := behindDelta_lawfulOn.isLocal _ b _ third
  obtain ⟨-, stop⟩ := (hw left₃).eq_past ahead₃ third
  obtain rfl : [] = left₃ := congrArg (fun s => s.cursor.ahead) stop
  have ahead₁ : used = u ++ left₁ := ahead₁
  have ahead₂ : left₁ = v ++ left₂ := ahead₂
  have ahead₃ : left₂ = w ++ [] := ahead₃
  refine ⟨u, v, w, t', b, ?_, hu, hv, hw, rfl⟩
  rw [ahead₁, ahead₂, ahead₃, List.append_nil]

end Covered

/-- The offset delta of the last record can be replaced by any other. -/
theorem exists_covered_delta {used : Bytes} {t : Trace} {c : RecordBatch}
    (h : Reads covered.read used t c) {delta : Int32} (other : delta ≠ c.lastOffsetDelta) :
    ∃ used' t', Reads covered.read used' t' { c with lastOffsetDelta := delta } ∧
      used'.length = used.length ∧ used' ≠ used := by
  obtain ⟨u, v, w, t', b, rfl, hu, hv, hw, same⟩ := covered_of_reads h
  obtain ⟨t'', reads⟩ := reads_covered hu (RawRead.reads_int32 delta) hw
  have width : (Value.int32 delta).bytes.length = v.length := by
    rw [RawRead.length_of_reads_fixed hv]
    exact BigEndian.length_encode 4 _
  have value : ({ c with lastOffsetDelta := delta } : RecordBatch) =
      { b with attributes := c.attributes, lastOffsetDelta := delta } :=
    congrArg (fun c : RecordBatch => { c with lastOffsetDelta := delta }) same
  refine ⟨u ++ ((Value.int32 delta).bytes ++ w), t'', ?_, ?_, ?_⟩
  · rw [value]
    exact reads
  · simp only [List.length_append, width]
  · intro equal
    -- then the same four bytes would read as both deltas
    have equal := List.append_inj_left (List.append_cancel_left equal) width
    have here := RawRead.reads_int32 delta 0 []
    rw [equal] at here
    exact other (EStateM.Result.ok.inj (here.symm.trans (hv 0 []))).1

/-! ### Other parts -/

/-- The parts with another covered one, and the checksum of that. -/
def Parts.withCovered (p : Parts) (covered : Bytes) : Parts :=
  { p with crc := (Value.int32 (crc32c covered).toInt32).bytes, covered }

section Exchange

variable {p : Parts} {b c : RecordBatch} {used : Bytes} {t : Trace}

theorem Parts.Of.length_crc (h : p.Of b) (covered : Bytes) :
    (p.withCovered covered).crc.length = p.crc.length := by
  rw [RawRead.length_of_reads_fixed h.crc]
  exact BigEndian.length_encode 4 _

theorem Parts.Of.length_withCovered (h : p.Of b) (length : used.length = p.covered.length) :
    (p.withCovered used).bytes.length = p.bytes.length := by
  have crc := h.length_crc used
  show (p.leaderEpoch ++ (p.magic ++ ((p.withCovered used).crc ++ used))).length = _
  simp only [Parts.bytes, List.length_append, crc, length]

/-- The covered part can be replaced by any other of its length. -/
theorem Parts.Of.withCovered (h : p.Of b) (hc : Reads RecordBatch.covered.read used t c)
    (length : used.length = p.covered.length) :
    (p.withCovered used).Of { c with
      baseOffset := b.baseOffset, batchLength := b.batchLength
      partitionLeaderEpoch := b.partitionLeaderEpoch, magic := magicByte, crc := crc32c used } where
  leaderEpoch := h.leaderEpoch
  magic := h.magic
  crc := RawRead.reads_uint32 (crc32c used)
  covered := ⟨t, c, hc, rfl⟩
  counts := by
    rw [h.length_withCovered length]
    exact h.counts
  sum := rfl

end Exchange

/-- A batch writes the same bytes whatever it holds for the values computed on writing. -/
theorem bytes_delta (b : RecordBatch) (delta : Int32) (crc : UInt32) :
    bytes { b with lastOffsetDelta := delta, crc } = b.bytes := rfl

/-- **A batch in disguise**: other bytes, as many, that read as a batch which would be written as
the same bytes. -/
theorem exists_disguise {used : Bytes} {t : Trace} {b : RecordBatch} (h : Reads read used t b) :
    ∃ used' t' b', Reads read used' t' b' ∧ used'.length = used.length ∧ used' ≠ used ∧
      b'.bytes = b.bytes := by
  obtain ⟨o, l, p, rfl, ho, hl, positive, parts⟩ := reads_iff_parts.1 ⟨t, h⟩
  obtain ⟨t₁, c, hc, same⟩ := parts.covered
  obtain ⟨delta, other⟩ : ∃ delta : Int32, delta ≠ c.lastOffsetDelta := by
    by_cases zero : c.lastOffsetDelta = 0
    · exact ⟨1, by rw [zero]; decide⟩
    · exact ⟨0, fun h => zero h.symm⟩
  -- the lengths stay the same, and the checksum is made to go with the changed part
  obtain ⟨covered', t₂, hc', length, differs⟩ := exists_covered_delta hc other
  let b' : RecordBatch := { b with lastOffsetDelta := delta, crc := crc32c covered' }
  have size := parts.length_withCovered length
  have parts' : (p.withCovered covered').Of b' := by
    show (p.withCovered covered').Of { b with lastOffsetDelta := delta, crc := crc32c covered' }
    rw [same]
    exact parts.withCovered hc' length
  obtain ⟨t', reads⟩ := reads_iff_parts (b := b').2 ⟨o, l, _, rfl, ho, hl, positive, parts'⟩
  refine ⟨_, t', b', reads, ?_, ?_, b.bytes_delta delta (crc32c covered')⟩
  · simp only [List.length_append, size]
  · intro equal
    have equal := List.append_cancel_left (List.append_cancel_left equal)
    have equal := List.append_cancel_left (List.append_cancel_left equal)
    exact differs (List.append_inj_right equal (parts.length_crc covered'))

end RecordBatch

/-- **A log in disguise**: for every log but the empty one there are other bytes, as many, that hold
batches which would be written as the same bytes. -/
theorem exists_log_disguise {log : Bytes} {bs : List RecordBatch} (h : decodeLog log = .ok bs)
    (some : log ≠ []) :
    ∃ log' bs', decodeLog log' = .ok bs' ∧ log'.length = log.length ∧ log' ≠ log ∧
      bs'.map RecordBatch.bytes = bs.map RecordBatch.bytes := by
  obtain ⟨ps, rfl, rfl, each⟩ := decodeLog_eq_ok_iff.1 h
  cases ps with
  | nil => exact absurd rfl some
  | cons p ps =>
    obtain ⟨used, t, b, reads, length, differs, same⟩ :=
      RecordBatch.exists_disguise (each p List.mem_cons_self)
    refine ⟨_, _, decodeLog_eq_ok_iff.2 ⟨⟨used, t, b⟩ :: ps, rfl, rfl, ?_⟩, ?_, ?_, ?_⟩
    · rintro q hq
      rcases List.mem_cons.1 hq with rfl | hq
      · exact reads
      · exact each q (List.mem_cons_of_mem p hq)
    · simp only [List.flatMap_cons, List.length_append, length]
    · intro equal
      rw [List.flatMap_cons, List.flatMap_cons] at equal
      exact differs (List.append_inj_left equal length)
    · simp only [List.map_cons, same]

end BrokerExam
