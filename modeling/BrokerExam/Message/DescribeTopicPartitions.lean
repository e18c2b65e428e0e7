/-
BrokerExam/Message/DescribeTopicPartitions.lean

DescribeTopicPartitions, version 0: topics by name, with their partitions.  Long
answers come in pages; a cursor says where the next one begins.  A cursor is
preceded by a marker byte, `-1` for none and `1` for one.
-/
import BrokerExam.Message.Basic

namespace BrokerExam

structure PageCursor where
  topicName : String
  partitionIndex : Int32
  deriving DecidableEq, Repr

structure DescribeTopicPartitionsRequestBody where
  topicNames : List String := []
  responsePartitionLimit : Int32 := 0
  cursor : Option PageCursor := none
  deriving DecidableEq, Repr

structure DescribedPartition where
  errorCode : Int16 := 0
  partitionIndex : Int32 := 0
  leaderId : Int32 := 0
  leaderEpoch : Int32 := 0
  replicaNodes : List Int32 := []
  isrNodes : List Int32 := []
  eligibleLeaderReplicas : List Int32 := []
  lastKnownElr : List Int32 := []
  offlineReplicas : List Int32 := []
  deriving DecidableEq, Repr

structure DescribedTopic where
  errorCode : Int16 := 0
  name : Option String := none
  topicUuid : Uuid := Uuid.nil
  isInternal : Bool := false
  partitions : List DescribedPartition := []
  topicAuthorizedOperations : Int32 := 0
  deriving DecidableEq, Repr

structure DescribeTopicPartitionsResponseBody where
  throttleTimeMs : Int32 := 0
  topics : List DescribedTopic := []
  nextCursor : Option PageCursor := none
  deriving DecidableEq, Repr

/-! ### Cursors -/

namespace PageCursor

/-- What follows the marker of a cursor. -/
def fields : Codec PageCursor PageCursor := do
  let topicName ← (Codec.compactString "TopicName").on (·.topicName)
  let partitionIndex ← (Codec.int32 "PartitionIndex").on (·.partitionIndex)
  Codec.tagBuffer
  return { topicName, partitionIndex }

/-- A cursor or none, behind its marker. -/
def codec : Codec (Option PageCursor) (Option PageCursor) := Codec.scope "Cursor"
  { write := fun
      | none => (none, Encoding.leaf "IsCursorPresent" (.int8 (-1)))
      | some page =>
        let (page, e) := fields.write page
        (some page, Encoding.leaf "IsCursorPresent" (.int8 1) ++ e)
    read := do
      let (marker, anchor) ← FieldRead.anchored "IsCursorPresent" Kind.int8
      if marker = -1 then pure none
      else if marker = 1 then some <$> fields.read
      else throw (anchor.error (.invalidValue (.cursorMarker marker))) }

end PageCursor

/-! ### Bodies -/

/-- The name of a topic asked for. -/
def describedName : Codec String String := do
  let name ← Codec.compactString "Name"
  Codec.tagBuffer
  return name

instance : RequestBody DescribeTopicPartitionsRequestBody where
  api := .describeTopicPartitions
  codec := Codec.scope "Body" do
    let topicNames ← (Codec.compactArray "Topics" describedName).on (·.topicNames)
    let responsePartitionLimit ←
      (Codec.int32 "ResponsePartitionLimit").on (·.responsePartitionLimit)
    let cursor ← PageCursor.codec.on (·.cursor)
    Codec.tagBuffer
    return { topicNames, responsePartitionLimit, cursor }

def DescribedPartition.codec : Codec DescribedPartition DescribedPartition := do
  let errorCode ← (Codec.int16 "ErrorCode").on (·.errorCode)
  let partitionIndex ← (Codec.int32 "PartitionIndex").on (·.partitionIndex)
  let leaderId ← (Codec.int32 "LeaderID").on (·.leaderId)
  let leaderEpoch ← (Codec.int32 "LeaderEpoch").on (·.leaderEpoch)
  let replicaNodes ← (Codec.compactInt32Array "ReplicaNodes").on (·.replicaNodes)
  let isrNodes ← (Codec.compactInt32Array "IsrNodes").on (·.isrNodes)
  let eligibleLeaderReplicas ←
    (Codec.compactInt32Array "EligibleLeaderReplicas").on (·.eligibleLeaderReplicas)
  let lastKnownElr ← (Codec.compactInt32Array "LastKnownELR").on (·.lastKnownElr)
  let offlineReplicas ← (Codec.compactInt32Array "OfflineReplicas").on (·.offlineReplicas)
  Codec.tagBuffer
  return {
    errorCode, partitionIndex, leaderId, leaderEpoch, replicaNodes, isrNodes
    eligibleLeaderReplicas, lastKnownElr, offlineReplicas }

def DescribedTopic.codec : Codec DescribedTopic DescribedTopic := do
  let errorCode ← (Codec.int16 "ErrorCode").on (·.errorCode)
  let name ← (Codec.compactNullableString "Name").on (·.name)
  let topicUuid ← (Codec.uuid "TopicUUID").on (·.topicUuid)
  let isInternal ← (Codec.boolean "IsInternal").on (·.isInternal)
  let partitions ← (Codec.compactArray "Partitions" DescribedPartition.codec).on (·.partitions)
  let topicAuthorizedOperations ←
    (Codec.int32 "TopicAuthorizedOperations").on (·.topicAuthorizedOperations)
  Codec.tagBuffer
  return { errorCode, name, topicUuid, isInternal, partitions, topicAuthorizedOperations }

instance : ResponseBody DescribeTopicPartitionsResponseBody where
  api := .describeTopicPartitions
  codec := Codec.scope "Body" do
    let throttleTimeMs ← (Codec.int32 "ThrottleTimeMs").on (·.throttleTimeMs)
    let topics ← (Codec.compactArray "Topics" DescribedTopic.codec).on (·.topics)
    let nextCursor ← PageCursor.codec.on (·.nextCursor)
    Codec.tagBuffer
    return { throttleTimeMs, topics, nextCursor }

end BrokerExam
