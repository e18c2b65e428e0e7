/-
BrokerExam/Message/Fetch.lean

Fetch, version 16: record batches of partitions, from given offsets on.
-/
import BrokerExam.Message.Basic
import BrokerExam.Batch.Stream

namespace BrokerExam

structure FetchRequestPartition where
  id : Int32
  currentLeaderEpoch : Int32
  fetchOffset : Int64
  lastFetchedOffset : Int32
  logStartOffset : Int64
  partitionMaxBytes : Int32
  deriving DecidableEq, Repr

structure FetchRequestTopic where
  topicUuid : Uuid
  partitions : List FetchRequestPartition
  deriving DecidableEq, Repr

structure ForgottenTopic where
  topicUuid : Uuid
  partitionIds : List Int32
  deriving DecidableEq, Repr

structure FetchRequestBody where
  maxWaitMs : Int32
  minBytes : Int32
  maxBytes : Int32
  isolationLevel : Int8
  sessionId : Int32
  sessionEpoch : Int32
  topics : List FetchRequestTopic
  forgottenTopics : List ForgottenTopic
  rackId : String
  deriving DecidableEq, Repr

structure AbortedTransaction where
  producerId : Int64
  firstOffset : Int64
  deriving DecidableEq, Repr

structure FetchedPartition where
  id : Int32 := 0
  errorCode : Int16 := 0
  highWatermark : Int64 := 0
  lastStableOffset : Int64 := 0
  logStartOffset : Int64 := 0
  abortedTransactions : List AbortedTransaction := []
  preferredReadReplica : Int32 := 0
  recordBatches : List RecordBatch := []
  deriving DecidableEq, Repr

structure FetchedTopic where
  topicUuid : Uuid := Uuid.nil
  partitions : List FetchedPartition := []
  deriving DecidableEq, Repr

structure FetchResponseBody where
  throttleTimeMs : Int32 := 0
  errorCode : Int16 := 0
  sessionId : Int32 := 0
  topics : List FetchedTopic := []
  deriving DecidableEq, Repr

/-! ### Requests -/

def FetchRequestPartition.codec : Codec FetchRequestPartition FetchRequestPartition := do
  let id ← (Codec.int32 "ID").on (·.id)
  let currentLeaderEpoch ← (Codec.int32 "CurrentLeaderEpoch").on (·.currentLeaderEpoch)
  let fetchOffset ← (Codec.int64 "FetchOffset").on (·.fetchOffset)
  let lastFetchedOffset ← (Codec.int32 "LastFetchedOffset").on (·.lastFetchedOffset)
  let logStartOffset ← (Codec.int64 "LogStartOffset").on (·.logStartOffset)
  let partitionMaxBytes ← (Codec.int32 "PartitionMaxBytes").on (·.partitionMaxBytes)
  Codec.tagBuffer
  return {
    id, currentLeaderEpoch, fetchOffset, lastFetchedOffset, logStartOffset, partitionMaxBytes }

def FetchRequestTopic.codec : Codec FetchRequestTopic FetchRequestTopic := do
  let topicUuid ← (Codec.uuid "UUID").on (·.topicUuid)
  let partitions ← (Codec.compactArray "Partitions" FetchRequestPartition.codec).on (·.partitions)
  Codec.tagBuffer
  return { topicUuid, partitions }

def ForgottenTopic.codec : Codec ForgottenTopic ForgottenTopic := do
  let topicUuid ← (Codec.uuid "UUID").on (·.topicUuid)
  let partitionIds ← (Codec.compactInt32Array "PartitionIds").on (·.partitionIds)
  Codec.tagBuffer
  return { topicUuid, partitionIds }

instance : RequestBody FetchRequestBody where
  api := .fetch
  codec := Codec.scope "Body" do
    let maxWaitMs ← (Codec.int32 "MaxWaitMS").on (·.maxWaitMs)
    let minBytes ← (Codec.int32 "MinBytes").on (·.minBytes)
    let maxBytes ← (Codec.int32 "MaxBytes").on (·.maxBytes)
    let isolationLevel ← (Codec.int8 "IsolationLevel").on (·.isolationLevel)
    let sessionId ← (Codec.int32 "SessionId").on (·.sessionId)
    let sessionEpoch ← (Codec.int32 "SessionEpoch").on (·.sessionEpoch)
    let topics ← (Codec.compactArray "Topics" FetchRequestTopic.codec).on (·.topics)
    let forgottenTopics ←
      (Codec.compactArray "ForgottenTopics" ForgottenTopic.codec).on (·.forgottenTopics)
    let rackId ← (Codec.compactString "RackId").on (·.rackId)
    Codec.tagBuffer
    return {
      maxWaitMs, minBytes, maxBytes, isolationLevel, sessionId, sessionEpoch
      topics, forgottenTopics, rackId }

/-! ### Responses -/

def AbortedTransaction.codec : Codec AbortedTransaction AbortedTransaction := do
  let producerId ← (Codec.int64 "ProducerID").on (·.producerId)
  let firstOffset ← (Codec.int64 "FirstOffset").on (·.firstOffset)
  Codec.tagBuffer
  return { producerId, firstOffset }

def FetchedPartition.codec : Codec FetchedPartition FetchedPartition := do
  let id ← (Codec.int32 "ID").on (·.id)
  let errorCode ← (Codec.int16 "ErrorCode").on (·.errorCode)
  let highWatermark ← (Codec.int64 "HighWatermark").on (·.highWatermark)
  let lastStableOffset ← (Codec.int64 "LastStableOffset").on (·.lastStableOffset)
  let logStartOffset ← (Codec.int64 "LogStartOffset").on (·.logStartOffset)
  let abortedTransactions ←
    (Codec.compactArray "AbortedTransactions" AbortedTransaction.codec).on (·.abortedTransactions)
  let preferredReadReplica ← (Codec.int32 "PreferredReadReplica").on (·.preferredReadReplica)
  let recordBatches ← (Codec.batchStream "RecordBatches").on (·.recordBatches)
  Codec.tagBuffer
  return {
    id, errorCode, highWatermark, lastStableOffset, logStartOffset, abortedTransactions
    preferredReadReplica, recordBatches }

def FetchedTopic.codec : Codec FetchedTopic FetchedTopic := do
  let topicUuid ← (Codec.uuid "UUID").on (·.topicUuid)
  let partitions ← (Codec.compactArray "Partitions" FetchedPartition.codec).on (·.partitions)
  Codec.tagBuffer
  return { topicUuid, partitions }

instance : ResponseBody FetchResponseBody where
  api := .fetch
  codec := Codec.scope "Body" do
    let throttleTimeMs ← (Codec.int32 "ThrottleTimeMs").on (·.throttleTimeMs)
    let errorCode ← (Codec.int16 "ErrorCode").on (·.errorCode)
    let sessionId ← (Codec.int32 "SessionId").on (·.sessionId)
    let topics ← (Codec.compactArray "Topics" FetchedTopic.codec).on (·.topics)
    Codec.tagBuffer
    return { throttleTimeMs, errorCode, sessionId, topics }

end BrokerExam
