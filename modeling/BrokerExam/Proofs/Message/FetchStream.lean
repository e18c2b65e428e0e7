/-
BrokerExam/Proofs/Message/FetchStream.lean

Where the batches of a partition stand in an answer to Fetch.  Their stream
follows the field of its size, which is recorded below the indices of the topic
and of the partition.

Main result: `FetchedPartition.stream_located`, that these bytes are a log of the
very batches that the answer gives for the partition.
-/
import BrokerExam.Proofs.Message.Bodies
import BrokerExam.Proofs.Wire.Inside

namespace BrokerExam

/-- The bytes of a stream, which follow the field of its size. -/
def Field.streamIn (payload : Bytes) (size : Field) : Bytes :=
  match size.value with
  | .compactRecordSize raw => (payload.drop size.stop).take (raw.toNat - 1)
  | _ => []

/-- A stream inside a payload holds the batches that were read from it. -/
theorem Inside.batchStream {payload : Bytes} {s' : ReadState Unit} {below : List String}
    {bs : List RecordBatch}
    (h : Inside (ReadState.start payload ()) s' below (FieldRead.batchStream "RecordBatches") bs) :
    ∃ size ∈ s'.fields.toList, size.path.segments = below ++ ["RecordBatches", "Size"] ∧
      decodeLog (size.streamIn payload) = .ok bs := by
  have onward (v : UInt64 × Anchor) : FieldRead.Onward
      (if v.1 ≤ 1 then pure [] else FieldRead.batchesIn "RecordBatches" (v.1.toNat - 1) v.2) := by
    split
    · exact (FieldRead.Local.pure []).onward
    · exact ((localFamily_batchesIn "RecordBatches" (v.1.toNat - 1)).isLocal v.2).onward
  obtain ⟨⟨raw, anchor⟩, s₁, s₂, size, member, path, value, stop, reaches, run⟩ :=
    h.scope.recorded Kind.Plain.compactRecordSize.isLocal onward
  refine ⟨size, member, ?_, ?_⟩
  · rw [path, List.append_assoc, List.append_assoc]
    rfl
  · have stream : size.streamIn payload = s₁.cursor.ahead.take (raw.toNat - 1) := by
      rw [reaches.ahead_of_start, Field.streamIn, value, ← stop]
      rfl
    rw [stream]
    dsimp only at run
    split at run
    · next small =>
      -- zero and one both stand for no bytes at all
      obtain ⟨rfl, -⟩ := EStateM.Result.ok.inj run
      have none : raw.toNat - 1 = 0 := Nat.sub_eq_zero_of_le (UInt64.le_iff_toNat_le.1 small)
      rw [none, List.take_zero]
      rfl
    · obtain ⟨used, left, ahead, size, log⟩ := ok_of_batchesIn run
      rw [ahead, List.take_left' size]
      exact log

/-! ### Down to a partition -/

section Down

variable {s s' : ReadState Unit} {below : List String}

/-- The body of a response is read below its root. -/
theorem Inside.responseBody {β : Type} [ResponseBody β] {r : Response β}
    (readsBody : FieldRead.Local (ResponseBody.codec (β := β)).read)
    (h : Inside s s' below Response.codec.read r) :
    Inside s s' (below ++ [Response.root β]) (ResponseBody.codec (β := β)).read r.body := by
  rw [Response.codec_eq] at h
  have readsHeader (flexible : Bool) : FieldRead.Local (ResponseHeader.codec flexible).read :=
    Codec.Lawful.on_all.isLocal
  obtain ⟨header, parts⟩ := h.scope.next (readsHeader _)
  obtain ⟨body, found, s₁, s₂, -, -, run, -⟩ := parts.bind readsBody fun body s r s' run => by
    obtain ⟨-, rfl, -⟩ := Response.ok_of_ending run
    exact ⟨Reaches.refl s', rfl⟩
  obtain ⟨rfl, -⟩ := Response.ok_of_ending run
  exact found

/-- Behind an array that ends a structure there is nothing but a tag buffer. -/
theorem Inside.last {α β : Type} {r : FieldRead α} {g : α → β} {b : β}
    (h : Inside s s' below (do
      let a ← r
      FieldRead.tagBuffer
      pure (g a)) b) (hr : FieldRead.Local r) : ∃ a, g a = b ∧ Inside s s' below r a := by
  obtain ⟨a, found, rest⟩ := h.bind hr fun a =>
    (FieldRead.Local.tagBuffer.bind fun _ => FieldRead.Local.pure (g a)).onward
  obtain ⟨_, last⟩ := rest.next FieldRead.Local.tagBuffer
  exact ⟨a, last.eq_of_pure, found⟩

theorem Inside.fetchedTopics {b : FetchResponseBody}
    (h : Inside s s' below (ResponseBody.codec (β := FetchResponseBody)).read b) :
    Inside s s' (below ++ ["Body"])
      (FieldRead.compactArray "Topics" FetchedTopic.codec.read) b.topics := by
  obtain ⟨_, h⟩ := h.scope.next (Codec.Lawful.on_all (c := Codec.int32 "ThrottleTimeMs")).isLocal
  obtain ⟨_, h⟩ := h.next (Codec.Lawful.on_all (c := Codec.int16 "ErrorCode")).isLocal
  obtain ⟨_, h⟩ := h.next (Codec.Lawful.on_all (c := Codec.int32 "SessionId")).isLocal
  obtain ⟨topics, rfl, found⟩ := h.last
    (FieldRead.Local.compactArray "Topics" FetchedTopic.codec_lawfulOn.isLocal)
  exact found

theorem Inside.fetchedPartitions {t : FetchedTopic}
    (h : Inside s s' below FetchedTopic.codec.read t) :
    Inside s s' below (FieldRead.compactArray "Partitions" FetchedPartition.codec.read)
      t.partitions := by
  obtain ⟨_, h⟩ := h.next (Codec.Lawful.on_all (c := Codec.uuid "UUID")).isLocal
  obtain ⟨partitions, rfl, found⟩ := h.last
    (FieldRead.Local.compactArray "Partitions" FetchedPartition.codec_lawfulOn.isLocal)
  exact found

theorem Inside.fetchedBatches {p : FetchedPartition}
    (h : Inside s s' below FetchedPartition.codec.read p) :
    Inside s s' below (FieldRead.batchStream "RecordBatches") p.recordBatches := by
  have int32 (segment : String) : FieldRead.Local (Codec.int32 segment).read :=
    Codec.Lawful.on_all.isLocal
  have int64 (segment : String) : FieldRead.Local (Codec.int64 segment).read :=
    Codec.Lawful.on_all.isLocal
  have transactions : FieldRead.Local
      (FieldRead.compactArray "AbortedTransactions" AbortedTransaction.codec.read) :=
    FieldRead.Local.compactArray _ Codec.Lawful.on_all.isLocal
  obtain ⟨_, h⟩ := h.next (int32 "ID")
  obtain ⟨_, h⟩ := h.next (Codec.Lawful.on_all (c := Codec.int16 "ErrorCode")).isLocal
  obtain ⟨_, h⟩ := h.next (int64 "HighWatermark")
  obtain ⟨_, h⟩ := h.next (int64 "LastStableOffset")
  obtain ⟨_, h⟩ := h.next (int64 "LogStartOffset")
  obtain ⟨_, h⟩ := h.next transactions
  obtain ⟨_, h⟩ := h.next (int32 "PreferredReadReplica")
  obtain ⟨batches, rfl, found⟩ := h.last (batchStream_isLocal "RecordBatches")
  exact found

end Down

/-! ### The stream of a partition -/

/-- The path of the size of the batches of the partition at index `j` of the topic at index `i`. -/
def FetchedPartition.sizePath (i j : Nat) : FieldPath :=
  ⟨["FetchResponse", "Body", "Topics", indexed "Topics" i, "Partitions", indexed "Partitions" j,
    "RecordBatches", "Size"]⟩

/-- **The stream of a partition**: where an answer to Fetch gives batches for a partition, the bytes
behind the size at its path are a log of these batches. -/
theorem FetchedPartition.stream_located {payload : Bytes} {r : Response FetchResponseBody}
    {s : ReadState Unit} (run : Response.read payload = .ok r s) {i j : Nat} {t : FetchedTopic}
    {p : FetchedPartition} (ht : r.body.topics[i]? = some t) (hp : t.partitions[j]? = some p) :
    ∃ size ∈ s.fields.toList, size.path = sizePath i j ∧
      decodeLog (size.streamIn payload) = .ok p.recordBatches := by
  have body := (Inside.of_run run).responseBody FetchResponseBody.codec_lawfulOn.isLocal
  have topic := body.fetchedTopics.element FetchedTopic.codec_lawfulOn.isLocal ht
  have partition := topic.fetchedPartitions.element FetchedPartition.codec_lawfulOn.isLocal hp
  obtain ⟨size, member, path, stream⟩ := partition.fetchedBatches.batchStream
  exact ⟨size, member, congrArg FieldPath.mk path, stream⟩

end BrokerExam
