/-
BrokerExam/Proofs/Verdict/Fetch.lean

What an answer to Fetch must be like to pass.  The batches of a partition are
compared with those on disk by the bytes that either would be written as, and not
by the bytes that arrived.

Main results: `passes_checks` and the lemmas before it, which open the checks one
level at a time, and `fetch_passing_stream`, which says how far the bytes that
arrived agree with those on disk.
-/
import BrokerExam.Proofs.Batch.Disguise
import BrokerExam.Proofs.Message.FetchStream
import BrokerExam.Proofs.Verdict.Judge
import BrokerExam.Verdict.Fetch

namespace BrokerExam.FetchExpectation

open Check

/-! ### The checks across fields -/

theorem passes_valueRemarks (b : RecordBatch) : Passes (valueRemarks b) := by
  intro holds objection hm
  obtain ⟨r, -, hr⟩ := List.mem_filterMap.1 hm
  obtain ⟨v, -, hv⟩ := Option.map_eq_some_iff.1 hr
  cases hv

theorem passes_batchChecks {i : Nat} {expected actual : RecordBatch} :
    Passes (batchChecks i expected actual) ↔ expected.bytes = actual.bytes := by
  rw [batchChecks, passes_append]
  simp only [passes_demand, passes_remark, passes_nil, passes_valueRemarks, and_true,
    decide_eq_true_eq]

/-- Batches pass if they are as many, and each would be written as the same bytes. -/
theorem passes_batchesChecks {expected actual : List RecordBatch} :
    Passes (batchesChecks expected actual) ↔
      actual.map RecordBatch.bytes = expected.map RecordBatch.bytes := by
  rw [batchesChecks, passes_append, passes_append, passes_flatten]
  simp only [passes_demand, passes_remark, passes_nil, and_true, decide_eq_true_eq,
    List.mem_mapIdx, List.length_zip, List.getElem_zip]
  constructor
  · rintro ⟨length, each⟩
    apply List.ext_getElem
    · rw [List.length_map, List.length_map, length]
    · intro i ha he
      rw [List.length_map] at ha he
      rw [List.getElem_map, List.getElem_map]
      exact (passes_batchChecks.1 (each _ ⟨i, by omega, rfl⟩)).symm
  · intro same
    have length : actual.length = expected.length := by
      simpa only [List.length_map] using congrArg List.length same
    refine ⟨length, ?_⟩
    rintro _ ⟨i, hi, rfl⟩
    apply passes_batchChecks.2
    have here := List.getElem_of_eq same (i := i) (by rw [List.length_map]; omega)
    rw [List.getElem_map, List.getElem_map] at here
    exact here.symm

theorem passes_partitionChecks {expected : ExpectedFetchPartition} {actual : FetchedPartition} :
    Passes (partitionChecks expected actual) ↔
      actual.errorCode = expected.errorCode ∧ actual.id = expected.id ∧
        ∀ batches, expected.recordBatches = some batches →
          actual.recordBatches.map RecordBatch.bytes = batches.map RecordBatch.bytes := by
  rw [partitionChecks, passes_append]
  simp only [passes_demand, passes_remark, passes_nil, and_true, decide_eq_true_eq, and_assoc]
  refine and_congr_right fun _ => and_congr_right fun _ => ?_
  rcases expected.recordBatches with - | batches
  · constructor
    · rintro - batches none
      cases none
    · exact fun _ => passes_nil
  · rw [passes_batchesChecks]
    exact ⟨fun h _ same => Option.some.inj same ▸ h, fun h => h batches rfl⟩

theorem passes_topicChecks {expected : ExpectedFetchTopic} {actual : FetchedTopic} :
    Passes (topicChecks expected actual) ↔
      actual.topicUuid = expected.uuid ∧ actual.partitions.length = expected.partitions.length ∧
        ∀ (j : Nat) e p, expected.partitions[j]? = some e → actual.partitions[j]? = some p →
          Passes (partitionChecks e p) := by
  rw [topicChecks, passes_append, passes_zipWith]
  simp only [passes_demand, passes_remark, passes_nil, and_true, decide_eq_true_eq, and_assoc]

theorem passes_checks {e : FetchExpectation} {r : Response FetchResponseBody} :
    Passes (checks e r) ↔
      r.body.topics.length = e.topics.length ∧
        ∀ (i : Nat) topic t, e.topics[i]? = some topic → r.body.topics[i]? = some t →
          Passes (topicChecks topic t) := by
  rw [checks, passes_append, passes_zipWith]
  simp only [passes_demand, passes_remark, passes_nil, and_true, decide_eq_true_eq]

/-! ### The bytes that arrived -/

/-- Any answer that passes has the partition that is expected at an index, with batches which would
be written as the same bytes. -/
theorem partition_of_passes {e : FetchExpectation} {r : Response FetchResponseBody}
    (h : Passes (checks e r)) {i j : Nat} {topic : ExpectedFetchTopic} {id : Int32}
    {batches : List RecordBatch} (htopic : e.topics[i]? = some topic)
    (hpartition : topic.partitions[j]? = some (.withBatches id batches)) :
    ∃ t p, r.body.topics[i]? = some t ∧ t.partitions[j]? = some p ∧
      p.recordBatches.map RecordBatch.bytes = batches.map RecordBatch.bytes := by
  obtain ⟨length, topics⟩ := passes_checks.1 h
  obtain ⟨hi, -⟩ := List.getElem?_eq_some_iff.1 htopic
  have ht := List.getElem?_eq_getElem (l := r.body.topics) (i := i) (length ▸ hi)
  obtain ⟨-, length, partitions⟩ := passes_topicChecks.1 (topics i topic _ htopic ht)
  obtain ⟨hj, -⟩ := List.getElem?_eq_some_iff.1 hpartition
  have hp := List.getElem?_eq_getElem (i := j) (length ▸ hj)
  obtain ⟨-, -, same⟩ := passes_partitionChecks.1 (partitions j _ _ hpartition hp)
  exact ⟨_, _, ht, hp, same batches rfl⟩

/-- Only for the empty log does passing mean that the same bytes arrived. -/
theorem batchesChecks_exact_iff {log : Bytes} {batches : List RecordBatch}
    (hlog : decodeLog log = .ok batches) :
    (∀ stream sent, decodeLog stream = .ok sent → Passes (batchesChecks batches sent) →
      stream = log) ↔ log = [] := by
  constructor
  · intro exact
    apply Decidable.byContradiction
    intro some
    obtain ⟨stream, sent, hstream, -, differs, same⟩ := exists_log_disguise hlog some
    exact differs (exact stream sent hstream (passes_batchesChecks.2 same))
  · rintro rfl stream sent hstream passes
    obtain rfl : [] = batches := Except.ok.inj hlog
    obtain rfl : sent = [] := List.map_eq_nil_iff.1 (passes_batchesChecks.1 passes)
    obtain ⟨ps, rfl, values, -⟩ := decodeLog_eq_ok_iff.1 hstream
    rw [List.map_eq_nil_iff.1 values.symm]
    rfl

end BrokerExam.FetchExpectation

namespace BrokerExam

open Check FetchExpectation Rehearsal

/-- The bytes arrived as the batches of the partition at index `j` of the topic at index `i`. -/
def FetchedPartition.StreamAt (payload : Bytes) (i j : Nat) (stream : Bytes) : Prop :=
  ∃ (r : Response FetchResponseBody) (s : ReadState Unit), Response.read payload = .ok r s ∧
    ∃ size ∈ s.fields.toList, size.path = sizePath i j ∧ stream = size.streamIn payload

/-- **What a passing answer to Fetch has in common with the disk**: for a partition that is compared
with a log, bytes have arrived that would be written again as the log would.  When the log is as
this program writes it, they are the log itself exactly if they, too, are as it writes them; and no
log but the empty one is such that only itself would do. -/
theorem fetch_passing_stream {e : FetchExpectation} {f : Frame} {ignoreSize : Bool}
    {r : Response FetchResponseBody} {w w' : World}
    (passes : (Verdict.judgeMessage e f ignoreSize : Tried InWorld _).run w = .ok (.ok r) w')
    {i j : Nat} {topic : ExpectedFetchTopic} {id : Int32} {batches : List RecordBatch} {log : Bytes}
    (htopic : e.topics[i]? = some topic)
    (hpartition : topic.partitions[j]? = some (.withBatches id batches))
    (hlog : decodeLog log = .ok batches) :
    (∃ stream sent, FetchedPartition.StreamAt f.payload i j stream ∧
      decodeLog stream = .ok sent ∧ encodeLog sent = encodeLog batches ∧
      sent.map RecordBatch.bytes = batches.map RecordBatch.bytes ∧
      (log = encodeLog batches ∨ stream = encodeLog sent →
        (stream = log ↔ log = encodeLog batches ∧ stream = encodeLog sent))) ∧
    ((∀ stream sent, decodeLog stream = .ok sent → Passes (batchesChecks batches sent) →
      stream = log) ↔ log = []) := by
  refine ⟨?_, batchesChecks_exact_iff hlog⟩
  -- first what the verdict says of the fields and of the batches that were read
  obtain ⟨_, run⟩ := Verdict.comesTo_judgeMessage e f ignoreSize w
  obtain ⟨verdict, -⟩ := EStateM.Result.ok.inj (run.symm.trans passes)
  obtain ⟨-, fields, checked⟩ := Verdict.verdict_eq_ok_iff.1 verdict
  obtain ⟨s, read, -, -⟩ := Verdict.verdictOnFields_eq_ok_iff.1 fields
  obtain ⟨t, p, ht, hp, same⟩ := partition_of_passes checked htopic hpartition
  -- then where those batches stood in the payload
  obtain ⟨size, member, path, stream⟩ := FetchedPartition.stream_located read ht hp
  have bytes : encodeLog p.recordBatches = encodeLog batches := by
    simp only [encodeLog, List.flatMap_def, same]
  refine ⟨size.streamIn f.payload, p.recordBatches, ⟨r, s, read, size, member, path, rfl⟩, stream,
    bytes, same, ?_⟩
  rw [bytes]
  rintro (rfl | rewritten)
  · exact ⟨fun equal => ⟨rfl, equal⟩, fun both => both.2⟩
  · constructor
    · exact fun equal => ⟨equal.symm.trans rewritten, rewritten⟩
    · exact fun both => both.2.trans both.1.symm

/-- A batch on disk, with one record. -/
def plainBatch : RecordBatch := { records := [Record.ofValue [104, 105]] }

/-- The bytes of `plainBatch`, but for five as the offset delta of its last record, and the checksum
that goes with it. -/
def disguisedLog : Bytes :=
  List.replicate 11 0 ++ [58, 0, 0, 0, 0, 2, 72, 63, 114, 84, 0, 0, 0, 0, 0, 5] ++
    List.replicate 16 0 ++ List.replicate 14 255 ++ [0, 0, 0, 1, 16, 0, 0, 0, 1, 4, 104, 105, 0]

/-- An answer with `disguisedLog` as the batches of its one partition. -/
def disguisedAnswer : Frame :=
  ⟨[0, 0, 0, 142, 0, 0, 0, 7] ++ List.replicate 11 0 ++ [2] ++ List.replicate 16 0 ++ [2] ++
    List.replicate 30 0 ++ [1, 0, 0, 0, 0, 71] ++ disguisedLog ++ [0, 0, 0]⟩

/-- What is expected of an answer when `plainBatch` is on disk. -/
def plainExpectation : FetchExpectation :=
  { correlationId := 7
    topics := [⟨Uuid.nil, [.withBatches 0 [plainBatch.normalized]]⟩] }

theorem decodeLog_plainBatch : decodeLog (encodeLog [plainBatch]) = .ok [plainBatch.normalized] :=
  decodeLog_encodeLog (by decide +kernel)

theorem disguisedAnswer_passes : ∃ r w',
    (Verdict.judgeMessage plainExpectation disguisedAnswer false : Tried InWorld _).run {} =
      .ok (.ok r) w' := by
  obtain ⟨w', run⟩ := Verdict.comesTo_judgeMessage plainExpectation disguisedAnswer false {}
  have passes :
      (Verdict.verdict plainExpectation disguisedAnswer false).toOption.isSome = true := by
    decide +kernel
  rcases verdict : Verdict.verdict plainExpectation disguisedAnswer false with failure | r
  · rw [verdict] at passes
    cases passes
  · rw [verdict] at run
    exact ⟨r, w', run⟩

/-- What arrived with `disguisedAnswer` is not what is on disk. -/
theorem ne_of_streamAt_disguisedAnswer {stream : Bytes}
    (h : FetchedPartition.StreamAt disguisedAnswer.payload 0 0 stream) :
    stream ≠ encodeLog [plainBatch] := by
  obtain ⟨r, s, read, size, member, path, rfl⟩ := h
  -- no field at that path, whichever it is, stands before the bytes of the log
  have all : (match Response.read (β := FetchResponseBody) disguisedAnswer.payload with
      | .ok _ s => s.fields.toList.all fun size =>
        size.path != FetchedPartition.sizePath 0 0 ||
          size.streamIn disguisedAnswer.payload != encodeLog [plainBatch]
      | .error _ _ => false) = true := by
    decide +kernel
  rw [read] at all
  have here := List.all_eq_true.1 all size member
  rw [path, bne_self_eq_false, Bool.false_or] at here
  exact bne_iff_ne.1 here

/-- The conditions of `fetch_passing_stream` hold of an answer with other bytes than the disk. -/
theorem fetch_passing_stream_disguised :
    ∃ r w', (Verdict.judgeMessage plainExpectation disguisedAnswer false : Tried InWorld _).run {} =
        .ok (.ok r) w' ∧
      ∃ stream sent, FetchedPartition.StreamAt disguisedAnswer.payload 0 0 stream ∧
        decodeLog stream = .ok sent ∧ encodeLog sent = encodeLog [plainBatch] ∧
        stream ≠ encodeLog [plainBatch] := by
  obtain ⟨r, w', passes⟩ := disguisedAnswer_passes
  obtain ⟨⟨stream, sent, at_, decoded, same, -⟩, -⟩ :=
    fetch_passing_stream passes (i := 0) (j := 0) rfl rfl decodeLog_plainBatch
  refine ⟨r, w', passes, stream, sent, at_, decoded, ?_, ne_of_streamAt_disguisedAnswer at_⟩
  rw [same]
  exact encodeLog_normalized [plainBatch]

/-- Passing does not mean that what arrived is what is on disk. -/
theorem not_fetch_passing_exact :
    ¬ ∀ (e : FetchExpectation) (f : Frame) (ignoreSize : Bool) (r : Response FetchResponseBody)
        (w w' : World) (i j : Nat) (topic : ExpectedFetchTopic) (id : Int32)
        (batches : List RecordBatch) (log : Bytes),
      (Verdict.judgeMessage e f ignoreSize : Tried InWorld _).run w = .ok (.ok r) w' →
      e.topics[i]? = some topic → topic.partitions[j]? = some (.withBatches id batches) →
      decodeLog log = .ok batches → FetchedPartition.StreamAt f.payload i j log := by
  intro exact
  obtain ⟨r, w', passes⟩ := disguisedAnswer_passes
  have there := exact _ _ _ r _ w' 0 0 _ _ _ _ passes rfl rfl decodeLog_plainBatch
  exact ne_of_streamAt_disguisedAnswer there rfl

end BrokerExam
