/-
BrokerExam/Proofs/Message/FetchReply.lean

An answer to Fetch with the bytes of a log, for the one partition that was asked
for.  A broker has a free hand in everything that such an answer leaves open: the
offsets it reports, its transactions, and how it spells the lengths
(`PartitionReply`).

Main result: `PartitionReply.read_payload`, that the answer is read in any case.
-/
import BrokerExam.Proofs.Message.Bodies
import BrokerExam.Proofs.Wire.Spelling

namespace BrokerExam

/-- A successful answer about a partition of a topic, the batches of which are the bytes of the log;
with all that is up to the broker. -/
structure PartitionReply (correlationId : Int32) (topic : Uuid) (id : Int32) (log : Bytes) where
  headerTags : Kind.tagBuffer.Spelling 0
  topicsLength : Kind.compactArrayLength.Spelling 2
  partitionsLength : Kind.compactArrayLength.Spelling 2
  highWatermark : Int64
  lastStableOffset : Int64
  logStartOffset : Int64
  transactions : Piece (List AbortedTransaction)
  transactionsRead : transactions.ReadBy
    (FieldRead.compactArray "AbortedTransactions" AbortedTransaction.codec.read : FieldRead _)
  preferredReadReplica : Int32
  /-- The size of the log, counted one more; zero will do for an empty one. -/
  declared : UInt64
  counts : declared.toNat - 1 = log.length
  size : Kind.compactRecordSize.Spelling declared
  partitionTags : Kind.tagBuffer.Spelling 0
  topicTags : Kind.tagBuffer.Spelling 0
  bodyTags : Kind.tagBuffer.Spelling 0

namespace PartitionReply

variable {correlationId : Int32} {topic : Uuid} {id : Int32} {log : Bytes}

/-- The answer that leaves out what it can, with nothing spelled at greater length than needed. -/
def plain (correlationId : Int32) (topic : Uuid) (id : Int32) (log : Bytes)
    (counts : (UInt64.ofNat (log.length + 1)).toNat - 1 = log.length) :
    PartitionReply correlationId topic id log where
  headerTags := ⟨_, RawRead.reads_tagBuffer⟩
  topicsLength := ⟨_, RawRead.reads_unsignedVarint 2⟩
  partitionsLength := ⟨_, RawRead.reads_unsignedVarint 2⟩
  highWatermark := 0
  lastStableOffset := 0
  logStartOffset := 0
  transactions := ⟨_, _, []⟩
  transactionsRead :=
    have none : ∀ p ∈ ([] : List (Piece AbortedTransaction)),
        p.ReadBy AbortedTransaction.codec.read := fun _ hp => absurd hp List.not_mem_nil
    Reads.compactArray "AbortedTransactions" none rfl (RawRead.reads_unsignedVarint 1)
  preferredReadReplica := -1
  declared := UInt64.ofNat (log.length + 1)
  counts
  size := ⟨_, RawRead.reads_unsignedVarint _⟩
  partitionTags := ⟨_, RawRead.reads_tagBuffer⟩
  topicTags := ⟨_, RawRead.reads_tagBuffer⟩
  bodyTags := ⟨_, RawRead.reads_tagBuffer⟩

section Bytes

variable (reply : PartitionReply correlationId topic id log)

def partitionBytes : Bytes :=
  (Value.int32 id).bytes ++ ((Value.int16 0).bytes ++
    ((Value.int64 reply.highWatermark).bytes ++ ((Value.int64 reply.lastStableOffset).bytes ++
      ((Value.int64 reply.logStartOffset).bytes ++ (reply.transactions.bytes ++
        ((Value.int32 reply.preferredReadReplica).bytes ++
          ((reply.size.val ++ log) ++ reply.partitionTags.val)))))))

def topicBytes : Bytes :=
  (Value.uuid topic).bytes ++
    ((reply.partitionsLength.val ++ reply.partitionBytes) ++ reply.topicTags.val)

def headerBytes : Bytes := (Value.int32 correlationId).bytes ++ reply.headerTags.val

/-- No throttling, no error, no session, and the topic. -/
def bodyBytes : Bytes :=
  (Value.int32 0).bytes ++ ((Value.int16 0).bytes ++ ((Value.int32 0).bytes ++
    ((reply.topicsLength.val ++ reply.topicBytes) ++ reply.bodyTags.val)))

def payload : Bytes := reply.headerBytes ++ reply.bodyBytes

/-! ### What is read -/

/-- The partition with the batches of the log. -/
def partition (batches : List RecordBatch) : FetchedPartition :=
  { id
    errorCode := 0
    highWatermark := reply.highWatermark
    lastStableOffset := reply.lastStableOffset
    logStartOffset := reply.logStartOffset
    abortedTransactions := reply.transactions.value
    preferredReadReplica := reply.preferredReadReplica
    recordBatches := batches }

def response (batches : List RecordBatch) : Response FetchResponseBody :=
  { header := { correlationId }
    body :=
      { throttleTimeMs := 0
        errorCode := 0
        sessionId := 0
        topics := [{ topicUuid := topic, partitions := [reply.partition batches] }] } }

/-- The values in front of and behind the topics. -/
def trace (inTopic : Trace) : Trace :=
  Trace.scope "FetchResponse"
    (Trace.scope "Header"
      ([⟨["CorrelationID"], .int32 correlationId, (Value.int32 correlationId).bytes.length⟩] ++
        [⟨[tagBufferSegment], .unsignedVarint 0, reply.headerTags.val.length⟩]) ++
    Trace.scope "Body"
      ([⟨["ThrottleTimeMs"], .int32 0, (Value.int32 0).bytes.length⟩] ++
        ([⟨["ErrorCode"], .int16 0, (Value.int16 0).bytes.length⟩] ++
          ([⟨["SessionId"], .int32 0, (Value.int32 0).bytes.length⟩] ++
            (Trace.scope "Topics"
                (⟨["Length"], .compactArrayLength 2, reply.topicsLength.val.length⟩ ::
                  Trace.scope (indexed "Topics" 0) inTopic) ++
              [⟨[tagBufferSegment], .unsignedVarint 0, reply.bodyTags.val.length⟩])))))

end Bytes

/-! ### Reading -/

variable (reply : PartitionReply correlationId topic id log) {batches : List RecordBatch}

theorem reads_tagBuffer {tags : Bytes} (h : Kind.tagBuffer.read.Reads tags 0) :
    Reads (FieldRead.tagBuffer : FieldRead Unit) tags
      [⟨[tagBufferSegment], .unsignedVarint 0, tags.length⟩] () :=
  fun _ => (ReadsBefore.field tagBufferSegment h).map fun _ => ()

theorem reads_partition (decoded : decodeLog log = .ok batches) :
    ∃ t, Reads FetchedPartition.codec.read reply.partitionBytes t (reply.partition batches) := by
  obtain ⟨t, stream⟩ := reads_batchStream decoded "RecordBatches" reply.counts reply.size.property
  have tags := reads_tagBuffer reply.partitionTags.property
  exact ⟨_, fun rest =>
    (ReadsBefore.field "ID" (RawRead.reads_int32 id)).bind <|
    (ReadsBefore.field "ErrorCode" (RawRead.reads_int16 0)).bind <|
    (ReadsBefore.field "HighWatermark" (RawRead.reads_int64 reply.highWatermark)).bind <|
    (ReadsBefore.field "LastStableOffset" (RawRead.reads_int64 reply.lastStableOffset)).bind <|
    (ReadsBefore.field "LogStartOffset" (RawRead.reads_int64 reply.logStartOffset)).bind <|
    (reply.transactionsRead _).bind <|
    (ReadsBefore.field "PreferredReadReplica"
      (RawRead.reads_int32 reply.preferredReadReplica)).bind <|
    (stream _).bind <| (tags rest).bind_pure fun _ => reply.partition batches⟩

theorem reads_topic (decoded : decodeLog log = .ok batches) :
    ∃ t, Reads FetchedTopic.codec.read reply.topicBytes t
      { topicUuid := topic, partitions := [reply.partition batches] } := by
  obtain ⟨t, partition⟩ := reply.reads_partition decoded
  have tags := reads_tagBuffer reply.topicTags.property
  have partitions := Reads.compactArray_singleton "Partitions" partition
    reply.partitionsLength.property
  exact ⟨_, fun rest =>
    (ReadsBefore.field "UUID" (RawRead.reads_uuid topic)).bind <|
    (partitions _).bind <| (tags rest).bind_pure fun _ =>
      ({ topicUuid := topic, partitions := [reply.partition batches] } : FetchedTopic)⟩

theorem reads_header : Reads (ResponseHeader.codec true).read reply.headerBytes
    (Trace.scope "Header"
      ([⟨["CorrelationID"], .int32 correlationId, (Value.int32 correlationId).bytes.length⟩] ++
        [⟨[tagBufferSegment], .unsignedVarint 0, reply.headerTags.val.length⟩]))
    { correlationId } := by
  have tags := reads_tagBuffer reply.headerTags.property
  intro rest
  rw [ResponseHeader.codec_true]
  exact ReadsBefore.scope "Header" <|
    (ReadsBefore.field "CorrelationID" (RawRead.reads_int32 correlationId)).bind <|
    (tags rest).bind_pure fun _ => ({ correlationId } : ResponseHeader)

/-- **The answer is read**, with whatever the log is read as. -/
theorem read_payload (decoded : decodeLog log = .ok batches) :
    ∃ inTopic, Response.read reply.payload = .ok (reply.response batches)
      ((ReadState.start reply.payload ()).past (reply.trace inTopic) []) := by
  obtain ⟨t, inside⟩ := reply.reads_topic decoded
  have tags := reads_tagBuffer reply.bodyTags.property
  have topics := Reads.compactArray_singleton "Topics" inside
    reply.topicsLength.property
  have body : Reads (ResponseBody.codec (β := FetchResponseBody)).read reply.bodyBytes _
      (reply.response batches).body := fun rest =>
    ReadsBefore.scope "Body" <|
    (ReadsBefore.field "ThrottleTimeMs" (RawRead.reads_int32 0)).bind <|
    (ReadsBefore.field "ErrorCode" (RawRead.reads_int16 0)).bind <|
    (ReadsBefore.field "SessionId" (RawRead.reads_int32 0)).bind <|
    (topics _).bind <| (tags rest).bind_pure fun _ => (reply.response batches).body
  have whole : ReadsBefore [] (Response.codec (β := FetchResponseBody)).read
      (reply.headerBytes ++ (reply.bodyBytes ++ [])) _ (reply.response batches) :=
    ReadsBefore.scope "FetchResponse" <|
    (reply.reads_header _).bind <| (body _).bind <|
      Response.readsBefore_ending _ _
  rw [List.append_nil, List.append_nil] at whole
  exact ⟨t, whole.run (ReadState.start reply.payload ()) (List.append_nil _).symm⟩

end PartitionReply
end BrokerExam
