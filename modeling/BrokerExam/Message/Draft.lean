/-
BrokerExam/Message/Draft.lean

Drafting requests and batches.  Each draft starts from the values that an examiner
sends by default; the operations change one thing and leave the rest.
-/
import BrokerExam.Message.ApiVersions
import BrokerExam.Message.DescribeTopicPartitions
import BrokerExam.Message.Fetch
import BrokerExam.Message.Produce

namespace BrokerExam

/-! ### Headers -/

/-- The header of a request from the examiner. -/
def RequestHeader.draft (apiKey apiVersion : Int16) : RequestHeader :=
  { apiKey, apiVersion, correlationId := 0, clientId := some "kafka-tester" }

/-- A request with the header of a version of the API of its body. -/
def Request.draft {β : Type} [RequestBody β] (version : Int16) (body : β) : Request β :=
  ⟨RequestHeader.draft (RequestBody.api β).code version, body⟩

namespace Request

variable {β : Type}

def withCorrelationId (r : Request β) (id : Int32) : Request β :=
  { r with header := { r.header with correlationId := id } }

def withApiVersion (r : Request β) (version : Int16) : Request β :=
  { r with header := { r.header with apiVersion := version } }

def withClientId (r : Request β) (id : Option String) : Request β :=
  { r with header := { r.header with clientId := id } }

end Request

/-! ### The four requests -/

namespace ApiVersionsRequestBody

def version : Int16 := 4

def draft : Request ApiVersionsRequestBody := Request.draft version ⟨"kafka-cli", "0.1"⟩

end ApiVersionsRequestBody

namespace DescribeTopicPartitionsRequestBody

def version : Int16 := 0

def draft : Request DescribeTopicPartitionsRequestBody :=
  Request.draft version { responsePartitionLimit := 2000 }

end DescribeTopicPartitionsRequestBody

/-- A partition to be fetched from its start, one mebibyte at most. -/
def FetchRequestPartition.whole (id : Int32) : FetchRequestPartition :=
  { id
    currentLeaderEpoch := -1
    fetchOffset := 0
    lastFetchedOffset := -1
    logStartOffset := -1
    partitionMaxBytes := 1048576 }

namespace FetchRequestBody

def version : Int16 := 16

def draft : Request FetchRequestBody :=
  Request.draft version
    { maxWaitMs := 500
      minBytes := 1
      maxBytes := 52428800
      isolationLevel := 0
      sessionId := 0
      sessionEpoch := 0
      topics := []
      forgottenTopics := []
      rackId := "" }

def addTopic (body : FetchRequestBody) (topicUuid : Uuid)
    (partitions : List FetchRequestPartition) : FetchRequestBody :=
  { body with topics := body.topics ++ [{ topicUuid, partitions }] }

end FetchRequestBody

namespace ProduceRequestBody

def version : Int16 := 11

def draft : Request ProduceRequestBody :=
  Request.draft version { transactionalId := none, acks := 1, timeoutMs := 5000, topics := [] }

def withAcks (body : ProduceRequestBody) (acks : Int16) : ProduceRequestBody := { body with acks }

def withTimeoutMs (body : ProduceRequestBody) (timeoutMs : Int32) : ProduceRequestBody :=
  { body with timeoutMs }

def withTransactionalId (body : ProduceRequestBody) (transactionalId : Option String) :
    ProduceRequestBody := { body with transactionalId }

/-- The partitions with the batches added to the one of the given id, or to a new one at the
end. -/
def addToPartition (id : Int32) (batches : List RecordBatch) :
    List ProduceRequestPartition → List ProduceRequestPartition
  | [] => [⟨id, batches⟩]
  | p :: ps =>
    if p.id = id then { p with recordBatches := p.recordBatches ++ batches } :: ps
    else p :: addToPartition id batches ps

/-- The topics with the batches added to the one of the given name, or to a new one at the end. -/
def addToTopic (name : String) (id : Int32) (batches : List RecordBatch) :
    List ProduceRequestTopic → List ProduceRequestTopic
  | [] => [⟨name, addToPartition id batches []⟩]
  | t :: ts =>
    if t.name = name then { t with partitions := addToPartition id batches t.partitions } :: ts
    else t :: addToTopic name id batches ts

def addBatches (body : ProduceRequestBody) (topic : String) (partition : Int32)
    (batches : List RecordBatch) : ProduceRequestBody :=
  { body with topics := addToTopic topic partition batches body.topics }

end ProduceRequestBody

/-- One call in drafting a request to Produce. -/
inductive ProduceCall
  | correlationId (id : Int32)
  | acks (acks : Int16)
  | timeoutMs (ms : Int32)
  | transactionalId (id : Option String)
  | batches (topic : String) (partition : Int32) (batches : List RecordBatch)
  deriving DecidableEq, Repr

namespace ProduceCall

/-- The request after the call. -/
def apply (r : Request ProduceRequestBody) : ProduceCall → Request ProduceRequestBody
  | .correlationId id => r.withCorrelationId id
  | .acks n => { r with body := r.body.withAcks n }
  | .timeoutMs ms => { r with body := r.body.withTimeoutMs ms }
  | .transactionalId id => { r with body := r.body.withTransactionalId id }
  | .batches topic partition bs => { r with body := r.body.addBatches topic partition bs }

/-- The request that the calls make of the draft, one after the other. -/
def build (calls : List ProduceCall) : Request ProduceRequestBody :=
  calls.foldl apply ProduceRequestBody.draft

end ProduceCall

/-! ### Batches -/

namespace RecordBatch

/-- Both timestamps at once. -/
def withTimestamp (b : RecordBatch) (timestamp : Int64) : RecordBatch :=
  { b with firstTimestamp := timestamp, maxTimestamp := timestamp }

def withProducer (b : RecordBatch) (id : Int64) (epoch : Int16) (sequence : Int32) : RecordBatch :=
  { b with producerId := id, producerEpoch := epoch, baseSequence := sequence }

def addRecord (b : RecordBatch) (r : Record) : RecordBatch :=
  { b with records := b.records ++ [r] }

/-- Adds a value under an empty key. -/
def addValue (b : RecordBatch) (value : Bytes) : RecordBatch :=
  b.addRecord { key := some [], value := some value }

/-- Adds a value with headers and no key. -/
def addWithHeaders (b : RecordBatch) (value : Bytes) (headers : List RecordHeader) : RecordBatch :=
  b.addRecord { value := some value, headers }

end RecordBatch
end BrokerExam
