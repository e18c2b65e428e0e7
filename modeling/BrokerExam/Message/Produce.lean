/-
BrokerExam/Message/Produce.lean

Produce, version 11: record batches to be appended to partitions.
-/
import BrokerExam.Message.Basic
import BrokerExam.Batch.Stream

namespace BrokerExam

structure ProduceRequestPartition where
  id : Int32
  recordBatches : List RecordBatch
  deriving DecidableEq, Repr

structure ProduceRequestTopic where
  name : String
  partitions : List ProduceRequestPartition
  deriving DecidableEq, Repr

structure ProduceRequestBody where
  transactionalId : Option String
  acks : Int16
  timeoutMs : Int32
  topics : List ProduceRequestTopic
  deriving DecidableEq, Repr

structure RecordError where
  batchIndex : Int32
  errorMessage : Option String
  deriving DecidableEq, Repr

structure ProducedPartition where
  id : Int32 := 0
  errorCode : Int16 := 0
  baseOffset : Int64 := 0
  logAppendTimeMs : Int64 := 0
  logStartOffset : Int64 := 0
  recordErrors : List RecordError := []
  errorMessage : Option String := none
  deriving DecidableEq, Repr

structure ProducedTopic where
  name : String := ""
  partitions : List ProducedPartition := []
  deriving DecidableEq, Repr

structure ProduceResponseBody where
  topics : List ProducedTopic := []
  throttleTimeMs : Int32 := 0
  deriving DecidableEq, Repr

/-! ### Requests -/

def ProduceRequestPartition.codec : Codec ProduceRequestPartition ProduceRequestPartition := do
  let id ← (Codec.int32 "ID").on (·.id)
  let recordBatches ← (Codec.batchStream "RecordBatches").on (·.recordBatches)
  Codec.tagBuffer
  return { id, recordBatches }

def ProduceRequestTopic.codec : Codec ProduceRequestTopic ProduceRequestTopic := do
  let name ← (Codec.compactString "Name").on (·.name)
  let partitions ←
    (Codec.compactArray "Partitions" ProduceRequestPartition.codec).on (·.partitions)
  Codec.tagBuffer
  return { name, partitions }

instance : RequestBody ProduceRequestBody where
  api := .produce
  codec := Codec.scope "Body" do
    let transactionalId ← (Codec.compactNullableString "TransactionalID").on (·.transactionalId)
    let acks ← (Codec.int16 "Acks").on (·.acks)
    let timeoutMs ← (Codec.int32 "TimeoutMs").on (·.timeoutMs)
    let topics ← (Codec.compactArray "Topics" ProduceRequestTopic.codec).on (·.topics)
    Codec.tagBuffer
    return { transactionalId, acks, timeoutMs, topics }

/-! ### Responses -/

def RecordError.codec : Codec RecordError RecordError := do
  let batchIndex ← (Codec.int32 "BatchIndex").on (·.batchIndex)
  let errorMessage ← (Codec.compactNullableString "ErrorMessage").on (·.errorMessage)
  Codec.tagBuffer
  return { batchIndex, errorMessage }

def ProducedPartition.codec : Codec ProducedPartition ProducedPartition := do
  let id ← (Codec.int32 "ID").on (·.id)
  let errorCode ← (Codec.int16 "ErrorCode").on (·.errorCode)
  let baseOffset ← (Codec.int64 "BaseOffset").on (·.baseOffset)
  let logAppendTimeMs ← (Codec.int64 "LogAppendTimeMs").on (·.logAppendTimeMs)
  let logStartOffset ← (Codec.int64 "LogStartOffset").on (·.logStartOffset)
  let recordErrors ← (Codec.compactArray "RecordErrors" RecordError.codec).on (·.recordErrors)
  let errorMessage ← (Codec.compactNullableString "ErrorMessage").on (·.errorMessage)
  Codec.tagBuffer
  return {
    id, errorCode, baseOffset, logAppendTimeMs, logStartOffset, recordErrors, errorMessage }

def ProducedTopic.codec : Codec ProducedTopic ProducedTopic := do
  let name ← (Codec.compactString "Name").on (·.name)
  let partitions ← (Codec.compactArray "Partitions" ProducedPartition.codec).on (·.partitions)
  Codec.tagBuffer
  return { name, partitions }

instance : ResponseBody ProduceResponseBody where
  api := .produce
  codec := Codec.scope "Body" do
    let topics ← (Codec.compactArray "Topics" ProducedTopic.codec).on (·.topics)
    let throttleTimeMs ← (Codec.int32 "ThrottleTimeMs").on (·.throttleTimeMs)
    Codec.tagBuffer
    return { topics, throttleTimeMs }

end BrokerExam
