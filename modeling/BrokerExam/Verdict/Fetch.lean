/-
BrokerExam/Verdict/Fetch.lean

What is expected of an answer to `Fetch`: these topics, each with these
partitions, in order, and the batches as they are on disk.
-/
import BrokerExam.Batch.Stream
import BrokerExam.Message.Fetch
import BrokerExam.Text.Utf8
import BrokerExam.Verdict.Judge

namespace BrokerExam

structure ExpectedFetchPartition where
  id : Int32
  errorCode : Int16
  /-- The batches on disk, unless they do not matter. -/
  recordBatches : Option (List RecordBatch)
  deriving DecidableEq, Repr

namespace ExpectedFetchPartition

def error (id : Int32) (code : Int16) : ExpectedFetchPartition := ⟨id, code, none⟩

def withBatches (id : Int32) (batches : List RecordBatch) : ExpectedFetchPartition :=
  ⟨id, 0, some batches⟩

end ExpectedFetchPartition

structure ExpectedFetchTopic where
  uuid : Uuid
  partitions : List ExpectedFetchPartition
  deriving DecidableEq, Repr

structure FetchExpectation where
  correlationId : Int32
  errorCode : Int16 := 0
  /-- Zero, without a session. -/
  sessionId : Int32 := 0
  topics : List ExpectedFetchTopic := []
  deriving DecidableEq, Repr

namespace FetchExpectation

open Check

def rules (e : FetchExpectation) : List Rule :=
  [⟨.exactly "FetchResponse.Header.CorrelationID", .int32 e.correlationId⟩,
    ⟨.exactly "FetchResponse.Body.ThrottleTimeMs", .int32 0⟩,
    ⟨.exactly "FetchResponse.Body.ErrorCode", .int16 e.errorCode⟩,
    ⟨.exactly "FetchResponse.Body.Topics.Length", .elements e.topics.length⟩,
    ⟨.exactly "FetchResponse.Body.SessionId", .int32 e.sessionId⟩,
    ⟨.like "FetchResponse.Body.Topics.**", .anything⟩]

/-- The values of a batch, each as text. -/
def valueRemarks (b : RecordBatch) : List Check :=
  b.records.filterMap fun r =>
    r.value.map fun v => remark s!"      ✓ Record Value: {Utf8.decodeLossy v}"

def batchChecks (i : Nat) (expected actual : RecordBatch) : List Check :=
  [demand (expected.bytes = actual.bytes)
      "RecordBatch bytes do not match with the contents on disk",
    remark s!"    ✓ RecordBatch[{i}] bytes match with the contents on disk"]
  ++ valueRemarks actual

def batchesChecks (expected actual : List RecordBatch) : List Check :=
  [demand (actual.length = expected.length)
    s!"Expected RecordBatches array to have length {expected.length}, got {actual.length}"]
  ++ ((expected.zip actual).mapIdx fun i (e, a) => batchChecks i e a).flatten
  ++ [remark s!"  ✓ RecordBatches: {actual.length}"]

def partitionChecks (expected : ExpectedFetchPartition) (actual : FetchedPartition) : List Check :=
  [demand (actual.errorCode = expected.errorCode)
      s!"Expected Partition Error Code to be {ErrorCode.describe expected.errorCode}, got {ErrorCode.describe actual.errorCode}",
    remark s!"  ✓ Partition Error Code: {ErrorCode.describe actual.errorCode}",
    demand (actual.id = expected.id)
      s!"Expected Partition ID to be {expected.id}, got {actual.id}",
    remark s!"  ✓ Partition ID: {actual.id}"]
  ++ match expected.recordBatches with
    | none => []
    | some batches => batchesChecks batches actual.recordBatches

def topicChecks (expected : ExpectedFetchTopic) (actual : FetchedTopic) : List Check :=
  [demand (actual.topicUuid = expected.uuid)
      s!"Expected Topic UUID to be {expected.uuid}, got {actual.topicUuid}",
    remark s!"✓ Topic UUID: {actual.topicUuid}",
    demand (actual.partitions.length = expected.partitions.length)
      s!"Expected Partitions array to have length {expected.partitions.length}, got {actual.partitions.length}"]
  ++ (List.zipWith partitionChecks expected.partitions actual.partitions).flatten

def checks (e : FetchExpectation) (r : Response FetchResponseBody) : List Check :=
  let actual := r.body.topics
  [remark s!"✓ CorrelationID: {e.correlationId}",
    remark "✓ ThrottleTimeMs: 0",
    remark s!"✓ ErrorCode: {ErrorCode.describe e.errorCode}",
    remark s!"✓ SessionId: {e.sessionId}",
    demand (actual.length = e.topics.length)
      s!"Expected Topics array to have length {e.topics.length}, got {actual.length}"]
  ++ (List.zipWith topicChecks e.topics actual).flatten

end FetchExpectation

instance : Expectation FetchExpectation FetchResponseBody :=
  ⟨FetchExpectation.rules, FetchExpectation.checks⟩

end BrokerExam
